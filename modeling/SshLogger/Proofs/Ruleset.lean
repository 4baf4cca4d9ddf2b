import SshLogger.Policy
import SshLogger.Library.Nft

/-! The script of a policy is read as one command a line, whatever the addresses
and ports, and its rules drop exactly the packets that the policy denies. -/

namespace SshLogger
open Library Library.Netip Library.Nft

variable {p : FirewallPolicy} {packet : Packet}

theorem canonicalIP_ok {raw ip : String} (canonical : canonicalIP raw = .ok ip) :
    ∃ addr, parseAddr raw = some addr ∧ zone addr = [] ∧ ip = addrText (unmap addr) := by
  simp only [canonicalIP] at canonical
  split at canonical
  · cases canonical
  next addr parsed =>
    split at canonical
    · cases canonical
    next unzoned =>
      split at canonical
      · cases canonical
      · exact ⟨addr, parsed, by simpa using unzoned, (Except.ok.inj canonical).symm⟩

/-- The address a text stands for, and what the text is made of. -/
structure Denotes (ip : String) (addr : Addr) : Prop where
  parses : parseAddr ip = some addr
  plain : ∀ char ∈ ip.toList, isWordChar char = true
  family : (∃ octets, addr = .v4 octets) ∧ addressFamily ip = "ip" ∨ (∃ groups, addr = .v6 groups []) ∧ addressFamily ip = "ip6"

theorem isWordChar_hex {char : Char} (hex : isHexDigit char = true) : isWordChar char = true := by
  simp only [isHexDigit, Bool.or_eq_true, Bool.and_eq_true, decide_eq_true_eq] at hex
  rcases hex with digit | ⟨low, high⟩
  · simp [isWordChar, Char.isAlphanum, digit]
  · have lower : char.isLower = true := by
      change (decide ('a'.val ≤ char.val) && decide (char.val ≤ 'z'.val)) = true
      rw [Bool.and_eq_true, decide_eq_true_eq, decide_eq_true_eq]
      exact ⟨low, Nat.le_trans high (by decide)⟩
    have alpha : char.isAlpha = true := by
      change (char.isUpper || char.isLower) = true
      rw [lower, Bool.or_true]
    simp [isWordChar, Char.isAlphanum, alpha]

theorem parseAddr_v6 {text : String} {groups : List Nat} {zone : List Char}
    (parsed : parseAddr text = some (.v6 groups zone)) : ':' ∈ text.toList := by
  simp only [parseAddr] at parsed
  split at parsed
  · simp at parsed
  next colon => exact List.mem_of_find?_eq_some colon
  · cases parsed

theorem isCanonicalIP_denotes {ip : String} (canonical : isCanonicalIP ip = true) : ∃ addr, Denotes ip addr := by
  simp only [isCanonicalIP] at canonical
  split at canonical
  next value found =>
    obtain ⟨addr, parsed, unzoned, printed⟩ := canonicalIP_ok found
    obtain rfl : value = ip := by simpa using canonical
    refine ⟨addr, parsed, ?_, ?_⟩
    · intro char member
      rw [printed] at member
      rcases addrText_plain member with hex | rfl | rfl
      · exact isWordChar_hex hex
      · decide
      · decide
    · cases addr with
      | v4 octets =>
        refine Or.inl ⟨⟨octets, rfl⟩, if_neg ?_⟩
        simp only [List.contains_iff_mem]
        intro colon
        rw [printed] at colon
        rcases addrText_v4 colon with dot | digit
        · exact absurd dot (by decide)
        · exact absurd digit (by decide)
      | v6 groups zone =>
        obtain rfl : zone = [] := unzoned
        exact Or.inr ⟨⟨groups, rfl⟩, if_pos (List.contains_iff_mem.mpr (parseAddr_v6 parsed))⟩
  · cases canonical

def portsOf (p : FirewallPolicy) : List Nat := p.ports.map Int.toNat

def sourceText (ip : String) : List Char := (addressFamily ip).toList ++ " saddr ".toList ++ ip.toList ++ [' ']

def portText (p : FirewallPolicy) : List Char :=
  "tcp dport \x7b ".toList ++ (String.intercalate ", " (p.ports.map toString)).toList ++ " \x7d ".toList

def opensText : List Char := "tcp flags & (syn | ack) == syn ".toList

theorem Denotes.condition {ip : String} {addr : Addr} (denotes : Denotes ip addr) :
    IsCondition (sourceText ip) (.saddr addr) := by
  unfold sourceText
  have nonempty : [] ++ ip.toList ≠ [] := by
    intro empty
    obtain rfl : ip = "" := by simpa using empty
    have parses := denotes.parses
    simp [parseAddr] at parses
  have word := lex_word denotes.plain [] nonempty (Or.inl ⟨rfl, rfl⟩ : ' ' = ' ' ∧ _ ∨ _)
  have single : '\n' ∉ ip.toList := fun member => absurd (denotes.plain _ member) (by decide)
  rcases denotes.family with ⟨⟨octets, rfl⟩, family⟩ | ⟨⟨groups, rfl⟩, family⟩
  · refine ⟨?_, List.getLast?_concat, [.word "ip", .word "saddr", .word ip], ?_, by simp [depthAfter], by simp, ?_⟩
    · simp [family, single]
    · have opening : lex [] ("ip".toList ++ " saddr ".toList) = some [.word "ip", .word "saddr"] := by decide +kernel
      have both := lex_append (by decide) opening word
      simpa [family] using both
    · simp [parseMatch, denotes.parses]
  · refine ⟨?_, List.getLast?_concat, [.word "ip6", .word "saddr", .word ip], ?_, by simp [depthAfter], by simp, ?_⟩
    · simp [family, single]
    · have opening : lex [] ("ip6".toList ++ " saddr ".toList) = some [.word "ip6", .word "saddr"] := by decide +kernel
      have both := lex_append (by decide) opening word
      simpa [family] using both
    · simp [parseMatch, denotes.parses]

structure Accepted (p : FirewallPolicy) : Prop where
  mode : p.mode = "" ∨ p.mode = "allowlist" ∨ p.mode = "off"
  legacy : p.mode ≠ "" → p.bans = []
  allowed : ∀ ip ∈ p.allowed, isCanonicalIP ip = true
  some_port : p.ports ≠ []
  ports : ∀ port ∈ p.ports, 1 ≤ port ∧ port ≤ 65535
  bans : ∀ b ∈ p.bans, isCanonicalIP b.ip = true

theorem check_passes {bad : Prop} [Decidable bad] {problem : String} {rest : Except String Unit} :
    (if bad then .error problem else rest) = .ok () ↔ ¬ bad ∧ rest = .ok () := by
  split
  next failed => exact ⟨nofun, fun passed => absurd failed passed.1⟩
  next passed => exact ⟨fun rest => ⟨passed, rest⟩, fun both => both.2⟩

theorem validate_accepted (validated : p.validate = .ok ()) : Accepted p := by
  simp only [FirewallPolicy.validate, check_passes] at validated
  obtain ⟨mode, legacy, -, -, allowed, -, sizes, ports, -, bans, -⟩ := validated
  refine ⟨?_, ?_, ?_, ?_, ?_, ?_⟩
  · by_contra none
    exact mode (by simpa [and_assoc, not_or] using none)
  · simpa using legacy
  · have both : (∀ ip ∈ p.allowed, isCanonicalIP ip = true) ∧ p.allowed.Nodup := by simpa using allowed
    exact both.1
  · rintro none
    simp [none] at sizes
  · simpa using ports
  · have both : (∀ b ∈ p.bans, isCanonicalIP b.ip = true ∧ b.ip ∉ p.protectedIPs) ∧ (p.bans.map IPBan.ip).Nodup := by
      simpa using bans
    exact fun b member => (both.1 b member).1

theorem ports_text (accepted : Accepted p) :
    portText p = "tcp dport \x7b ".toList ++ (String.intercalate ", " ((portsOf p).map toString)).toList ++ " \x7d ".toList := by
  have same : p.ports.map toString = (portsOf p).map toString := by
    rw [portsOf, List.map_map]
    refine List.map_congr_left fun port member => ?_
    have positive := (accepted.ports port member).1
    obtain ⟨value, rfl⟩ := Int.eq_ofNat_of_zero_le (by omega : 0 ≤ port)
    rfl
  unfold portText
  rw [same]

theorem dport_condition (accepted : Accepted p) :
    IsCondition (portText p) (.dport (portsOf p)) := by
  have nonempty : portsOf p ≠ [] := by simpa [portsOf] using accepted.some_port
  have opening : lex [] "tcp dport \x7b ".toList = some [.word "tcp", .word "dport", .mark '{'] :=
    lex_literal rfl (by decide)
  have closing : lex [] "\x7d ".toList = some [.mark '}'] := by decide +kernel
  have inner := lex_append (by simp [isEnd]) (lex_ports nonempty) closing
  have both := lex_append (by decide) opening inner
  rw [ports_text accepted]
  refine ⟨?_, ?_, [.word "tcp", .word "dport", .mark '{'] ++ (portTokens (portsOf p) ++ [.mark '}']), ?_, ?_, by simp, ?_⟩
  · have plain : '\n' ∉ (String.intercalate ", " ((portsOf p).map toString)).toList := by
      intro member
      rcases mem_intercalate member with comma | ⟨_, listed, there⟩
      · exact absurd comma (by decide)
      · obtain ⟨port, -, rfl⟩ := List.mem_map.mp listed
        have decimal : '\n' ∈ Nat.toDigits 10 port := by simpa using there
        exact absurd (Nat.isDigit_of_mem_toDigits (by decide) (by decide) decimal) (by decide)
    simp only [List.mem_append, not_or]
    exact ⟨⟨by decide, plain⟩, by decide⟩
  · rw [List.getLast?_append]
    rfl
  · simpa using both
  · simp [depthAfter, depthAfter_append (depthAfter_ports _ _)]
  · intro rest
    simp only [List.cons_append, List.nil_append, List.append_assoc, parseMatch, parsePorts_tokens nonempty, Option.map_some]

theorem flags_condition : IsCondition opensText (.flags [.syn, .ack] [.syn]) := by
  refine ⟨by decide, by decide, [.word "tcp", .word "flags", .mark '&', .mark '(', .word "syn", .mark '|', .word "ack",
    .mark ')', .word "==", .word "syn"], lex_literal rfl (by decide), by simp [depthAfter], by simp, ?_⟩
  intro rest
  simp [parseMatch, parseFlag]

def ruleLine (conditions : List (List Char)) (word : String) : List Char :=
  "add rule inet ssh_logger input ".toList ++ (conditions.flatten ++ word.toList)

theorem IsLine.decides {texts : List (List Char)} {conditions : List Match} (each : List.Forall₂ IsCondition texts conditions)
    {word : String} {verdict : Verdict} (decides : word = "accept" ∧ verdict = .accept ∨ word = "drop" ∧ verdict = .drop) :
    IsLine (ruleLine texts word) (.addRule "inet" "ssh_logger" "input" ⟨conditions, verdict⟩) := by
  have header : lex [] "add rule inet ssh_logger input ".toList =
      some [.word "add", .word "rule", .word "inet", .word "ssh_logger", .word "input"] :=
    lex_literal rfl (by decide)
  rcases decides with ⟨rfl, rfl⟩ | ⟨rfl, rfl⟩
  · have ending : lex [] ("accept".toList ++ ['\n']) = some [.word "accept", .mark '\n'] := by decide +kernel
    exact IsLine.rule (by decide) (by decide) header each (by decide) ending rfl
  · have ending : lex [] ("drop".toList ++ ['\n']) = some [.word "drop", .mark '\n'] := by decide +kernel
    exact IsLine.rule (by decide) (by decide) header each (by decide) ending rfl

def headerLines : List (List Char) := ["add table inet ssh_logger".toList, "delete table inet ssh_logger".toList,
  "add table inet ssh_logger".toList,
  "add chain inet ssh_logger input { type filter hook input priority -10; policy accept; }".toList]

def inputChain : Base := ⟨"filter", "input", "-10", .accept⟩

def headerCommands : List Command := [.addTable "inet" "ssh_logger", .deleteTable "inet" "ssh_logger",
  .addTable "inet" "ssh_logger", .addChain "inet" "ssh_logger" "input" inputChain]

theorem header_lines : List.Forall₂ IsLine headerLines headerCommands := by
  have table : IsLine "add table inet ssh_logger".toList (.addTable "inet" "ssh_logger") :=
    .literal rfl (by decide) [.word "add", .word "table", .word "inet", .word "ssh_logger"] (by decide) (by decide) rfl
  refine .cons table (.cons ?_ (.cons table (.cons ?_ .nil)))
  · exact .literal rfl (by decide) [.word "delete", .word "table", .word "inet", .word "ssh_logger"] (by decide) (by decide) rfl
  · exact .literal rfl (by decide) [.word "add", .word "chain", .word "inet", .word "ssh_logger", .word "input", .mark '{',
      .word "type", .word "filter", .word "hook", .word "input", .word "priority", .word "-10", .mark ';', .word "policy",
      .word "accept", .mark ';', .mark '}'] (by decide) (by decide) rfl

def opens : Match := .flags [.syn, .ack] [.syn]

def allowRule (p : FirewallPolicy) (ip : String) : Option Rule :=
  (parseAddr ip).map fun addr => ⟨[.saddr addr, .dport (portsOf p)], .accept⟩

def banRule (p : FirewallPolicy) (b : IPBan) : Option Rule :=
  (parseAddr b.ip).map fun addr => ⟨[.saddr addr, .dport (portsOf p)] ++ (if b.disconnect then [] else [opens]), .drop⟩

def rulesOf (p : FirewallPolicy) : List Rule :=
  if p.mode = "allowlist" then p.allowed.filterMap (allowRule p) ++ [⟨[.dport (portsOf p), opens], .drop⟩]
  else p.bans.filterMap (banRule p)

def addRule (rule : Rule) : Command := .addRule "inet" "ssh_logger" "input" rule

def banText (p : FirewallPolicy) (b : IPBan) : List (List Char) :=
  [sourceText b.ip, portText p] ++ (if b.disconnect then [] else [opensText])

def ruleLines (p : FirewallPolicy) : List (List Char) :=
  if p.mode = "allowlist" then
    p.allowed.map (fun ip => ruleLine [sourceText ip, portText p] "accept") ++ [ruleLine [portText p, opensText] "drop"]
  else p.bans.map fun b => ruleLine (banText p b) "drop"

theorem forall₂_filterMap {α β γ : Type} {R : γ → β → Prop} {line : α → γ} {rule : α → Option β} {items : List α}
    (each : ∀ item ∈ items, ∃ made, rule item = some made ∧ R (line item) made) :
    List.Forall₂ R (items.map line) (items.filterMap rule) := by
  induction items with
  | nil => exact .nil
  | cons item rest ih =>
    obtain ⟨made, found, related⟩ := each item List.mem_cons_self
    rw [List.map_cons, List.filterMap_cons_some found]
    exact .cons related (ih fun other member => each other (List.mem_cons_of_mem _ member))

theorem rule_lines (accepted : Accepted p) : List.Forall₂ IsLine (ruleLines p) ((rulesOf p).map addRule) := by
  rw [List.forall₂_map_right_iff]
  have dport := dport_condition accepted
  simp only [ruleLines, rulesOf]
  split
  · refine List.rel_append (forall₂_filterMap fun ip listed => ?_) (.cons ?_ .nil)
    · obtain ⟨addr, denotes⟩ := isCanonicalIP_denotes (accepted.allowed ip listed)
      refine ⟨_, by rw [allowRule, denotes.parses]; rfl, ?_⟩
      exact IsLine.decides (.cons denotes.condition (.cons dport .nil)) (Or.inl ⟨rfl, rfl⟩)
    · exact IsLine.decides (.cons dport (.cons flags_condition .nil)) (Or.inr ⟨rfl, rfl⟩)
  · refine forall₂_filterMap fun b listed => ?_
    obtain ⟨addr, denotes⟩ := isCanonicalIP_denotes (accepted.bans b listed)
    refine ⟨_, by rw [banRule, denotes.parses]; rfl, ?_⟩
    refine IsLine.decides (List.rel_append (.cons denotes.condition (.cons dport .nil)) ?_) (Or.inr ⟨rfl, rfl⟩)
    cases b.disconnect
    · exact .cons flags_condition .nil
    · exact .nil

def scriptLines (p : FirewallPolicy) : List (List Char) := headerLines ++ ruleLines p

theorem line_text {line text : String} {chars : List Char} (literal : line = String.ofList chars)
    (ended : text = String.ofList (chars ++ ['\n'])) : text.toList = line.toList ++ ['\n'] := by
  rw [literal, ended, String.toList_ofList, String.toList_ofList]

theorem header_text : ("add table inet ssh_logger\n" ++ "delete table inet ssh_logger\n" ++ "add table inet ssh_logger\n" ++
    "add chain inet ssh_logger input { type filter hook input priority -10; policy accept; }\n").toList =
    (headerLines.map (· ++ ['\n'])).flatten := by
  have adds : "add table inet ssh_logger\n".toList = "add table inet ssh_logger".toList ++ ['\n'] := line_text rfl rfl
  have deletes : "delete table inet ssh_logger\n".toList = "delete table inet ssh_logger".toList ++ ['\n'] := line_text rfl rfl
  have chain : "add chain inet ssh_logger input { type filter hook input priority -10; policy accept; }\n".toList =
      "add chain inet ssh_logger input { type filter hook input priority -10; policy accept; }".toList ++ ['\n'] :=
    line_text rfl rfl
  simp only [String.toList_append, adds, deletes, chain, headerLines, List.map_cons, List.map_nil, List.flatten_cons,
    List.flatten_nil, List.append_nil]
  simp only [List.append_assoc]

theorem join_lines {α : Type} {items : List α} {text : α → String} {line : α → List Char}
    (each : ∀ item, (text item).toList = line item ++ ['\n']) :
    (String.join (items.map text)).toList = ((items.map line).map (· ++ ['\n'])).flatten := by
  rw [String.toList_join, List.map_map, List.flatMap_map, ← List.flatMap_def]
  exact congrArg (List.flatMap · items) (funext each)

theorem source_text (ip : String) (rest : List Char) :
    ("add rule inet ssh_logger input " ++ addressFamily ip ++ " saddr " ++ ip ++ " tcp dport \x7b " ++
      String.intercalate ", " (p.ports.map toString)).toList ++ (" \x7d ".toList ++ rest) =
      "add rule inet ssh_logger input ".toList ++ (sourceText ip ++ (portText p ++ rest)) := by
  have spaced : " tcp dport \x7b ".toList = [' '] ++ "tcp dport \x7b ".toList := by decide
  unfold sourceText portText
  simp only [String.toList_append, spaced]
  simp only [List.append_assoc]

theorem allow_text (ip : String) : ("add rule inet ssh_logger input " ++ addressFamily ip ++ " saddr " ++ ip ++
    " tcp dport \x7b " ++ String.intercalate ", " (p.ports.map toString) ++ " \x7d accept\n").toList =
      ruleLine [sourceText ip, portText p] "accept" ++ ['\n'] := by
  have closing : " \x7d accept\n".toList = " \x7d ".toList ++ ("accept".toList ++ ['\n']) := by decide
  rw [String.toList_append, closing, source_text]
  unfold ruleLine
  simp only [List.flatten_cons, List.flatten_nil, List.append_nil]
  simp only [List.append_assoc]

theorem refuse_text : ("add rule inet ssh_logger input tcp dport \x7b " ++ String.intercalate ", " (p.ports.map toString) ++
    " \x7d tcp flags & (syn | ack) == syn drop\n").toList = ruleLine [portText p, opensText] "drop" ++ ['\n'] := by
  have opening : "add rule inet ssh_logger input tcp dport \x7b ".toList =
      "add rule inet ssh_logger input ".toList ++ "tcp dport \x7b ".toList := by decide
  have closing : " \x7d tcp flags & (syn | ack) == syn drop\n".toList =
      " \x7d ".toList ++ (opensText ++ ("drop".toList ++ ['\n'])) := by decide
  unfold ruleLine portText
  simp only [String.toList_append, opening, closing, List.flatten_cons, List.flatten_nil, List.append_nil]
  simp only [List.append_assoc]

theorem ban_text (b : IPBan) : ("add rule inet ssh_logger input " ++ addressFamily b.ip ++ " saddr " ++ b.ip ++
    " tcp dport \x7b " ++ String.intercalate ", " (p.ports.map toString) ++ " \x7d " ++
    (if b.disconnect then "" else "tcp flags & (syn | ack) == syn ") ++ "drop\n").toList =
      ruleLine (banText p b) "drop" ++ ['\n'] := by
  have closing : "drop\n".toList = "drop".toList ++ ['\n'] := by decide
  rw [String.toList_append, String.toList_append, String.toList_append, closing, List.append_assoc, List.append_assoc,
    source_text]
  unfold ruleLine banText opensText
  cases b.disconnect
  · simp only [Bool.false_eq_true, if_false, List.flatten_append, List.flatten_cons, List.flatten_nil, List.append_nil]
    simp only [List.append_assoc]
  · simp only [if_true, List.flatten_cons, List.flatten_nil, List.append_nil, String.toList_empty,
      List.nil_append]
    simp only [List.append_assoc]

theorem firewallScript_lines (accepted : p.validate = .ok ()) : ∃ script, firewallScript p = .ok script ∧
    script.toList = ((scriptLines p).map (· ++ ['\n'])).flatten := by
  simp only [firewallScript, accepted, scriptLines, ruleLines, List.map_append, List.flatten_append, ← header_text]
  by_cases mode : p.mode = "allowlist"
  · rw [if_pos (by rw [mode]; rfl), if_pos mode]
    refine ⟨_, rfl, ?_⟩
    rw [String.toList_append, String.toList_append, join_lines allow_text, refuse_text]
    simp only [List.map_append, List.flatten_append, List.map_cons, List.map_nil, List.flatten_cons, List.flatten_nil,
      List.append_nil, List.append_assoc]
  · rw [if_neg (fun same => mode (eq_of_beq same)), if_neg mode]
    refine ⟨_, rfl, ?_⟩
    rw [String.toList_append, join_lines ban_text]

/-- A segment that opens a connection has SYN set and ACK clear. -/
def Opens (segment : Segment) : Prop := Flag.syn ∈ segment.flags ∧ Flag.ack ∉ segment.flags

/-- What a policy denies: a segment to one of its ports, by the source of the packet. -/
def Denies (p : FirewallPolicy) (packet : Packet) : Prop :=
  ∃ segment, packet.tcp = some segment ∧ (segment.dport : Int) ∈ p.ports ∧
    if p.mode = "allowlist" then Opens segment ∧ ∀ ip ∈ p.allowed, parseAddr ip ≠ some packet.source
    else if p.mode = "off" then False
    else ∃ b ∈ p.bans, parseAddr b.ip = some packet.source ∧ (b.disconnect = true ∨ Opens segment)

theorem mem_portsOf (accepted : Accepted p) {port : Nat} : port ∈ portsOf p ↔ (port : Int) ∈ p.ports := by
  rw [portsOf, List.mem_map]
  constructor
  · rintro ⟨value, listed, rfl⟩
    have positive := (accepted.ports value listed).1
    rwa [Int.toNat_of_nonneg (by omega)]
  · exact fun listed => ⟨port, listed, rfl⟩

theorem dport_holds (accepted : Accepted p) : Match.holds packet (.dport (portsOf p)) = true ↔
    ∃ segment, packet.tcp = some segment ∧ (segment.dport : Int) ∈ p.ports := by
  cases tcp : packet.tcp with
  | none => simp [Match.holds, tcp]
  | some segment => simp [Match.holds, tcp, mem_portsOf accepted]

theorem opens_holds : Match.holds packet opens = true ↔ ∃ segment, packet.tcp = some segment ∧ Opens segment := by
  cases tcp : packet.tcp with
  | none => simp [Match.holds, opens, tcp]
  | some segment => simp [Match.holds, opens, tcp, Opens, Flag.all]

theorem saddr_holds {addr : Addr} {conditions : List Match} {verdict : Verdict} :
    Rule.holds ⟨.saddr addr :: conditions, verdict⟩ packet ↔
      packet.source = addr ∧ ∀ condition ∈ conditions, Match.holds packet condition = true := by
  simp [Rule.holds, Match.holds]

theorem rulesOf_allowlist (accepted : Accepted p) (mode : p.mode = "allowlist") :
    verdict .accept packet (rulesOf p) = .drop ↔ Denies p packet := by
  have allowing : ∀ rule ∈ p.allowed.filterMap (allowRule p), rule.verdict = .accept := by
    intro rule member
    obtain ⟨ip, -, made⟩ := List.mem_filterMap.mp member
    obtain ⟨addr, -, rfl⟩ := Option.map_eq_some_iff.mp made
    rfl
  have refusing : ∀ rule ∈ [(⟨[.dport (portsOf p), opens], .drop⟩ : Rule)], rule.verdict = .drop := by simp
  rw [rulesOf, if_pos mode, verdict_accepts allowing, verdict_drops refusing]
  constructor
  · rintro ⟨unlisted, rule, member, holds⟩
    obtain rfl := List.mem_singleton.mp member
    have both : Match.holds packet (.dport (portsOf p)) = true ∧ Match.holds packet opens = true := by
      simpa [Rule.holds] using holds
    obtain ⟨segment, tcp, port⟩ := (dport_holds accepted).mp both.1
    obtain ⟨same, again, opening⟩ := opens_holds.mp both.2
    obtain rfl : segment = same := Option.some.inj (tcp.symm.trans again)
    refine ⟨segment, tcp, port, ?_⟩
    rw [if_pos mode]
    refine ⟨opening, fun ip listed parsed => ?_⟩
    refine unlisted ⟨[.saddr packet.source, .dport (portsOf p)], .accept⟩ ?_ (saddr_holds.mpr ⟨rfl, ?_⟩)
    · exact List.mem_filterMap.mpr ⟨ip, listed, by rw [allowRule, parsed]; rfl⟩
    · simpa using both.1
  · rintro ⟨segment, tcp, port, denied⟩
    rw [if_pos mode] at denied
    obtain ⟨opening, unlisted⟩ := denied
    refine ⟨fun rule member holds => ?_, _, List.mem_singleton.mpr rfl, ?_⟩
    · obtain ⟨ip, listed, made⟩ := List.mem_filterMap.mp member
      obtain ⟨addr, parsed, rfl⟩ := Option.map_eq_some_iff.mp made
      exact unlisted ip listed (by rw [parsed, (saddr_holds.mp holds).1])
    · have both := And.intro ((dport_holds accepted).mpr ⟨segment, tcp, port⟩) (opens_holds.mpr ⟨segment, tcp, opening⟩)
      simpa [Rule.holds] using both

theorem banRule_holds (accepted : Accepted p) {b : IPBan} {rule : Rule} (made : banRule p b = some rule) :
    rule.holds packet ↔ ∃ segment, packet.tcp = some segment ∧ (segment.dport : Int) ∈ p.ports ∧
      parseAddr b.ip = some packet.source ∧ (b.disconnect = true ∨ Opens segment) := by
  obtain ⟨addr, parsed, rfl⟩ := Option.map_eq_some_iff.mp made
  rw [List.cons_append, saddr_holds, parsed, Option.some_inj, List.singleton_append, List.forall_mem_cons, dport_holds accepted]
  constructor
  · rintro ⟨source, ⟨segment, tcp, port⟩, rest⟩
    refine ⟨segment, tcp, port, source.symm, ?_⟩
    cases kept : b.disconnect with
    | true => exact Or.inl rfl
    | false =>
      obtain ⟨same, again, opening⟩ := opens_holds.mp (rest opens (by simp [kept]))
      obtain rfl : segment = same := Option.some.inj (tcp.symm.trans again)
      exact Or.inr opening
  · rintro ⟨segment, tcp, port, source, denied⟩
    refine ⟨source.symm, ⟨segment, tcp, port⟩, fun condition member => ?_⟩
    split at member
    · cases member
    next kept =>
      obtain rfl := List.mem_singleton.mp member
      exact opens_holds.mpr ⟨segment, tcp, denied.resolve_left kept⟩

theorem rulesOf_bans (accepted : Accepted p) (mode : p.mode ≠ "allowlist") :
    verdict .accept packet (rulesOf p) = .drop ↔ Denies p packet := by
  have dropping : ∀ rule ∈ p.bans.filterMap (banRule p), rule.verdict = .drop := by
    intro rule member
    obtain ⟨b, -, made⟩ := List.mem_filterMap.mp member
    obtain ⟨addr, -, rfl⟩ := Option.map_eq_some_iff.mp made
    rfl
  rw [rulesOf, if_neg mode, verdict_drops dropping]
  constructor
  · rintro ⟨rule, member, holds⟩
    obtain ⟨b, listed, made⟩ := List.mem_filterMap.mp member
    obtain ⟨segment, tcp, port, source, denied⟩ := (banRule_holds accepted made).mp holds
    refine ⟨segment, tcp, port, ?_⟩
    rw [if_neg mode, if_neg]
    · exact ⟨b, listed, source, denied⟩
    · intro off
      have none := accepted.legacy (by rw [off]; decide)
      rw [none] at listed
      cases listed
  · rintro ⟨segment, tcp, port, denied⟩
    rw [if_neg mode] at denied
    split at denied
    · cases denied
    · obtain ⟨b, listed, source, denied⟩ := denied
      have made : banRule p b =
          some ⟨[.saddr packet.source, .dport (portsOf p)] ++ (if b.disconnect then [] else [opens]), .drop⟩ := by
        rw [banRule, source]
        rfl
      exact ⟨_, List.mem_filterMap.mpr ⟨b, listed, made⟩, (banRule_holds accepted made).mpr ⟨segment, tcp, port, source, denied⟩⟩

inductive Shape (p : FirewallPolicy) : Command → Prop
  | addTable : Shape p (.addTable "inet" "ssh_logger")
  | deleteTable : Shape p (.deleteTable "inet" "ssh_logger")
  | addChain : Shape p (.addChain "inet" "ssh_logger" "input" ⟨"filter", "input", "-10", .accept⟩)
  | allow (ip : String) (addr : Addr) (listed : ip ∈ p.allowed) (parses : parseAddr ip = some addr) :
      Shape p (.addRule "inet" "ssh_logger" "input" ⟨[.saddr addr, .dport (portsOf p)], .accept⟩)
  | refuse : Shape p (.addRule "inet" "ssh_logger" "input" ⟨[.dport (portsOf p), opens], .drop⟩)
  | ban (b : IPBan) (addr : Addr) (listed : b ∈ p.bans) (parses : parseAddr b.ip = some addr) :
      Shape p (.addRule "inet" "ssh_logger" "input"
        ⟨[.saddr addr, .dport (portsOf p)] ++ (if b.disconnect then [] else [opens]), .drop⟩)

theorem rulesOf_shape : ∀ rule ∈ rulesOf p, Shape p (addRule rule) := by
  intro rule member
  rw [rulesOf] at member
  split at member
  · rcases List.mem_append.mp member with allowed | last
    · obtain ⟨ip, listed, made⟩ := List.mem_filterMap.mp allowed
      obtain ⟨addr, parsed, rfl⟩ := Option.map_eq_some_iff.mp made
      exact .allow ip addr listed parsed
    · obtain rfl := List.mem_singleton.mp last
      exact .refuse
  · obtain ⟨b, listed, made⟩ := List.mem_filterMap.mp member
    obtain ⟨addr, parsed, rfl⟩ := Option.map_eq_some_iff.mp made
    exact .ban b addr listed parsed

/-- A script, its lines, and the rules they give our chain. -/
structure Implements (p : FirewallPolicy) (script : String) (lines : List (List Char)) (rules : List Rule) : Prop where
  text : script.toList = (lines.map (· ++ ['\n'])).flatten
  each : List.Forall₂ (fun line command => '\n' ∉ line ∧ parse (line ++ ['\n']) = some [command]) lines
    (headerCommands ++ rules.map addRule)
  shapes : ∀ command ∈ headerCommands ++ rules.map addRule, Shape p command
  whole : parse script.toList = some (headerCommands ++ rules.map addRule)
  loads : ∀ ruleset, load ruleset (headerCommands ++ rules.map addRule) =
    some (ruleset.filter (fun t => !t.isNamed "inet" "ssh_logger") ++
      [⟨"inet", "ssh_logger", [⟨"input", inputChain, rules⟩]⟩])
  drops : ∀ packet, verdict inputChain.policy packet rules = .drop ↔ Denies p packet

/-- The script of a policy, read line by line and loaded over any ruleset, makes
our table anew and no other, and its chain drops what the policy denies. -/
theorem firewallScript_implements (p : FirewallPolicy) (validated : p.validate = .ok ()) :
    ∃ script lines rules, firewallScript p = .ok script ∧ Implements p script lines rules := by
  have accepted := validate_accepted validated
  obtain ⟨script, written, text⟩ := firewallScript_lines validated
  have lines := List.rel_append header_lines (rule_lines accepted)
  refine ⟨script, scriptLines p, rulesOf p, written, text, ?_, ?_, ?_, ?_, ?_⟩
  · exact lines.imp fun _ _ is_line => ⟨is_line.single, is_line.parses⟩
  · intro command member
    rcases List.mem_append.mp member with header | rule
    · simp only [headerCommands, List.mem_cons, List.not_mem_nil, or_false] at header
      rcases header with rfl | rfl | rfl | rfl
      exacts [.addTable, .deleteTable, .addTable, .addChain]
    · obtain ⟨made, listed, rfl⟩ := List.mem_map.mp rule
      exact rulesOf_shape made listed
  · rw [text]
    exact parse_lines lines
  · exact fun ruleset => load_table ruleset "inet" "ssh_logger" "input" inputChain (rulesOf p)
  · intro packet
    by_cases mode : p.mode = "allowlist"
    · exact rulesOf_allowlist accepted mode
    · exact rulesOf_bans accepted mode

def twoFamilies : FirewallPolicy :=
  { revision := "allow-1", mode := "allowlist", allowed := ["198.51.100.10", "2001:db8:1::10"], allowedNames := [],
    ports := [2222], protectedIPs := [], bans := [] }

theorem firewallScript_implements_two : ∃ script lines rules, firewallScript twoFamilies = .ok script ∧
    Implements twoFamilies script lines rules :=
  firewallScript_implements twoFamilies (by decide +kernel)

end SshLogger
