import Mathlib.Data.List.Perm.Subperm
import SshLogger.Responses
import SshLogger.Library.JsonSize
import SshLogger.Library.NetipText
import SshLogger.Proofs.BodySizes
import SshLogger.Proofs.PolicyCache

/-! Every answer to a batch fits into what the agent reads of one. Addresses are
counted by their characters, names at six bytes for each, and the session of a
command at six for each of its bytes. -/

namespace SshLogger
open Library Library.Bytes Library.Json

variable {p : FirewallPolicy}

theorem isPlain_of_all {text : List Char}
    (all : (text.all fun char => decide (char.utf8Size = 1 ∧ escape char = [char])) = true) : IsPlain text :=
  fun char member => by simpa using List.all_eq_true.mp all char member

theorem hexDigit_shown {char : Char} (shown : Netip.isHexDigit char = true ∨ char = '.' ∨ char = ':') :
    char.utf8Size = 1 ∧ escape char = [char] := by
  have every : ∀ n < 128, Netip.isHexDigit (Char.ofNat n) = true →
      (Char.ofNat n).utf8Size = 1 ∧ escape (Char.ofNat n) = [Char.ofNat n] := by decide
  rcases shown with digit | rfl | rfl
  · have small : char.toNat < 128 := by
      simp only [Netip.isHexDigit, Char.isDigit, Bool.or_eq_true, Bool.and_eq_true, decide_eq_true_eq] at digit
      have bound : char.val ≤ 'f'.val := by
        rcases digit with ⟨-, nine⟩ | ⟨-, last⟩
        · exact UInt32.le_trans nine (by decide)
        · exact last
      exact Nat.lt_of_le_of_lt (UInt32.le_iff_toNat_le.mp bound) (by decide)
    have found := every char.toNat small
    rw [Char.ofNat_toNat] at found
    exact found digit
  all_goals decide

theorem size_address {ip : String} (canonical : isCanonicalIP ip = true) : size (writeString ip.toList) ≤ 41 := by
  obtain ⟨addr, wellFormed, rfl⟩ : ∃ addr, Netip.WellFormed addr ∧ Netip.addrText addr = ip := by
    simp only [isCanonicalIP, canonicalIP] at canonical
    split at canonical
    next value found =>
      split at found
      · cases found
      next addr read =>
        split at found
        · cases found
        · split at found
          · cases found
          · exact ⟨_, Netip.unmap_wellFormed (Netip.parseAddr_wellFormed read),
              (Except.ok.inj found).trans (eq_of_beq canonical)⟩
    · cases canonical
  have plain : IsPlain (Netip.addrText addr).toList := fun char member => hexDigit_shown (Netip.addrText_plain member)
  have short := Netip.addrText_length wellFormed
  rw [plain.size_writeString, String.length_toList]
  omega

theorem size_text {text : String} {limit : Nat} (short : text.length ≤ limit) :
    size (write (.str text)) ≤ 6 * limit + 2 := by
  have most := size_writeString text.toList
  rw [String.length_toList] at most
  rw [write]
  omega

theorem bytes_size (text : String) : text.utf8ByteSize = size text.toList := by
  have bytes := utf8_size text.toList
  rwa [String.ofList_toList, utf8_length] at bytes

theorem length_le_bytes (text : String) : text.length ≤ text.utf8ByteSize := by
  have each : ∀ chars : List Char, chars.length ≤ size chars := by
    intro chars
    induction chars with
    | nil => exact Nat.le_refl _
    | cons char rest ih =>
      have positive := char.utf8Size_pos
      rw [size_cons, List.length_cons]
      omega
  rw [bytes_size, ← String.length_toList]
  exact each text.toList

theorem size_name {name : String}
    (all : (name.toList.all fun char => decide (char.utf8Size = 1 ∧ escape char = [char])) = true) :
    size (writeString name.toList) = name.length + 2 := by
  rw [(isPlain_of_all all).size_writeString, String.length_toList]

structure FirewallPolicy.Bounded (p : FirewallPolicy) : Prop where
  revision : p.revision.utf8ByteSize ≤ 100
  mode : p.mode.length ≤ 9
  few_allowed : p.allowed.length ≤ 1000
  allowed : ∀ ip ∈ p.allowed, isCanonicalIP ip = true
  named : ∀ entry ∈ p.allowedNames, entry.1 ∈ p.allowed ∧ entry.2.length ≤ 100
  few_ports : p.ports.length ≤ 32
  ports : ∀ port ∈ p.ports, 1 ≤ port ∧ port ≤ 65535
  few_protected : p.protectedIPs.length ≤ 1000
  protectedIPs : ∀ ip ∈ p.protectedIPs, isCanonicalIP ip = true
  few_bans : p.bans.length ≤ 1000
  bans : ∀ b ∈ p.bans, isCanonicalIP b.ip = true

theorem validate_bounded (validated : p.validate = .ok ()) : p.Bounded := by
  have accepted := validate_accepted validated
  simp only [FirewallPolicy.validate, check_passes] at validated
  obtain ⟨-, -, -, few_allowed, -, names, sizes, -, protectedIPs, -, -⟩ := validated
  simp only [Bool.or_eq_true, decide_eq_true_eq, beq_iff_eq, not_or, Nat.not_lt] at sizes
  obtain ⟨⟨⟨⟨⟨-, revision⟩, -⟩, few_ports⟩, few_protected⟩, few_bans⟩ := sizes
  refine ⟨revision, ?_, Nat.le_of_not_gt few_allowed, accepted.allowed, ?_, few_ports, accepted.ports, few_protected, ?_,
    few_bans, accepted.bans⟩
  · rcases accepted.mode with mode | mode | mode
    all_goals
      rw [mode]
      decide
  · intro entry member
    simp only [List.any_eq_true, not_exists, not_and] at names
    simpa using names entry member
  · simpa using protectedIPs

/-- There is at most one name for each address. -/
theorem FirewallPolicy.Bounded.few_names (bounded : p.Bounded) (keyed : p.Keyed) : p.allowedNames.length ≤ 1000 := by
  have inside : p.allowedNames.map Prod.fst ⊆ p.allowed := by
    intro ip member
    obtain ⟨entry, listed, rfl⟩ := List.mem_map.mp member
    exact (bounded.named entry listed).1
  have fewer := (keyed.subperm inside).length_le
  rw [List.length_map] at fewer
  exact Nat.le_trans fewer bounded.few_allowed

theorem cost_str {text : String} {width : Nat} (fits : size (writeString text.toList) ≤ width) :
    cost (.str text) ≤ width + 1 := by
  simp only [cost, write]
  omega

theorem size_listValue {isNil : Bool} {items : List Value} {total : Nat} (fits : (items.map cost).sum ≤ total) :
    size (write (listValue isNil items)) ≤ total + 4 := by
  unfold listValue
  split
  · have null : size (write .null) = 4 := by decide
    omega
  · have array := size_arr items
    omega

theorem cost_ban {b : IPBan} (canonical : isCanonicalIP b.ip = true) : cost (banValue b) ≤ 69 := by
  have object := size_obj [("ip", .str b.ip), ("disconnect", .bool b.disconnect)]
  have address := size_address canonical
  have flag : size (write (.bool b.disconnect)) ≤ 5 := by cases b.disconnect <;> decide
  have ip : size (writeString "ip".toList) = 4 := size_name (by decide)
  have disconnect : size (writeString "disconnect".toList) = 12 := size_name (by decide)
  simp only [List.map_cons, List.map_nil, List.sum_cons, List.sum_nil, memberCost, ip, disconnect] at object
  simp only [cost, banValue, write] at object ⊢
  omega

theorem cost_port {port : Int} (low : 1 ≤ port) (high : port ≤ 65535) : cost (.int port) ≤ 7 := by
  have digits := @size_int port 5 (by omega) (by decide)
  simp only [cost]
  omega

theorem memberCost_name {entry : String × String} (canonical : isCanonicalIP entry.1 = true) (short : entry.2.length ≤ 100) :
    memberCost (entry.1, .str entry.2) ≤ 645 := by
  have address := size_address canonical
  have name := size_text short
  simp only [memberCost]
  omega

theorem memberCost_named (name : String) {value : Value} {width total : Nat}
    (all : (name.toList.all fun char => decide (char.utf8Size = 1 ∧ escape char = [char])) = true)
    (fits : size (write value) ≤ width) (adds : name.length + 4 + width ≤ total) : memberCost (name, value) ≤ total := by
  have named := size_name all
  simp only [memberCost, named]
  omega

theorem memberCost_optional {absent : Bool} {member : String × Value} {width : Nat}
    (fits : memberCost member ≤ width) : ((if absent then [] else [member]).map memberCost).sum ≤ width := by
  cases absent with
  | true => simp
  | false => simpa using fits

theorem size_names (bounded : p.Bounded) (keyed : p.Keyed) :
    size (write (.obj ((sortedNames p.allowedNames).map fun entry => (entry.1, .str entry.2)))) ≤ 645002 := by
  have object := size_obj ((sortedNames p.allowedNames).map fun entry => (entry.1, .str entry.2))
  have few : (sortedNames p.allowedNames).length ≤ 1000 := by
    rw [(sortedNames_perm p.allowedNames).length_eq]
    exact bounded.few_names keyed
  have each : ∀ entry ∈ sortedNames p.allowedNames, memberCost (entry.1, .str entry.2) ≤ 645 := by
    intro entry member
    obtain ⟨listed, short⟩ := bounded.named entry ((sortedNames_perm p.allowedNames).mem_iff.mp member)
    exact memberCost_name (bounded.allowed _ listed) short
  have total := sum_bounded few each
  rw [List.map_map] at object
  exact Nat.le_trans object (Nat.add_le_add_right total 2)

/-- The JSON text of an accepted policy takes less than 800000 bytes. -/
theorem size_policy (bounded : p.Bounded) (keyed : p.Keyed) (nils : NilLists) :
    size (write (.obj (policyMembers nils p))) ≤ 799000 := by
  have object := size_obj (policyMembers nils p)
  have addresses : ∀ {ips : List String}, ips.length ≤ 1000 → (∀ ip ∈ ips, isCanonicalIP ip = true) →
      ((ips.map Value.str).map cost).sum ≤ 42000 := by
    intro ips few canonical
    rw [List.map_map]
    exact @sum_bounded _ ips (cost ∘ Value.str) 42 1000 few fun ip member => cost_str (size_address (canonical ip member))
  have revision : memberCost ("revision", .str p.revision) ≤ 614 :=
    memberCost_named "revision" (by decide) (size_text (Nat.le_trans (length_le_bytes _) bounded.revision)) (by decide)
  have mode : memberCost ("mode", .str p.mode) ≤ 64 :=
    memberCost_named "mode" (by decide) (size_text bounded.mode) (by decide)
  have allowed : memberCost ("allowed", .arr (p.allowed.map .str)) ≤ 42013 :=
    memberCost_named "allowed" (by decide) (Nat.le_trans (size_arr _)
      (Nat.add_le_add_right (addresses bounded.few_allowed bounded.allowed) 2)) (by decide)
  have names : memberCost ("allowed_names",
      .obj ((sortedNames p.allowedNames).map fun entry => (entry.1, .str entry.2))) ≤ 645019 :=
    memberCost_named "allowed_names" (by decide) (size_names bounded keyed) (by decide)
  have ports : memberCost ("ports", listValue nils.ports (p.ports.map .int)) ≤ 237 := by
    refine memberCost_named "ports" (by decide) (@size_listValue _ _ 224 ?_) (by decide)
    rw [List.map_map]
    exact @sum_bounded _ p.ports (cost ∘ Value.int) 7 32 bounded.few_ports fun port member =>
      cost_port (bounded.ports port member).1 (bounded.ports port member).2
  have protectedIPs : memberCost ("protected", listValue nils.protectedIPs (p.protectedIPs.map .str)) ≤ 42017 :=
    memberCost_named "protected" (by decide)
      (size_listValue (addresses bounded.few_protected bounded.protectedIPs)) (by decide)
  have bans : memberCost ("bans", listValue nils.bans (p.bans.map banValue)) ≤ 69012 := by
    refine memberCost_named "bans" (by decide) (@size_listValue _ _ 69000 ?_) (by decide)
    rw [List.map_map]
    exact @sum_bounded _ p.bans (cost ∘ banValue) 69 1000 bounded.few_bans fun b member => cost_ban (bounded.bans b member)
  have some_mode := @memberCost_optional (p.mode == "") _ _ mode
  have some_allowed := @memberCost_optional p.allowed.isEmpty _ _ allowed
  have some_names := @memberCost_optional p.allowedNames.isEmpty _ _ names
  have parts : ((policyMembers nils p).map memberCost).sum ≤ 798976 := by
    simp only [policyMembers, List.map_append, List.sum_append, List.map_cons, List.map_nil, List.sum_cons, List.sum_nil]
    omega
  omega

/-- What is left of a string of a JSON text. -/
def IsText (stored : Bytes) : Prop := ∃ text, stored = utf8 text

theorem fromUTF8_utf8 (text : String) : String.fromUTF8? ⟨(utf8 text).toArray⟩ = some text := by
  have bytes : (⟨(utf8 text).toArray⟩ : ByteArray) = text.toByteArray := rfl
  rw [bytes, String.fromUTF8?, dif_pos text.isValidUTF8]
  rfl

theorem textOf_utf8 (text : String) : textOf (utf8 text) = text := by
  rw [textOf, fromUTF8_utf8]
  rfl

structure Termination.Bounded (c : Termination) : Prop where
  id : c.id.length ≤ 48
  text : IsText c.sessionId
  session : c.sessionId.length ≤ 200
  expires : -2 ^ 63 ≤ c.expires ∧ c.expires < 2 ^ 63

theorem cost_termination {c : Termination} (bounded : c.Bounded) : cost c.value ≤ 1547 := by
  have object := size_obj [("id", .str c.id), ("session_id", .str (textOf c.sessionId)), ("expires", .int c.expires)]
  have session : (textOf c.sessionId).length ≤ 200 := by
    obtain ⟨text, same⟩ := bounded.text
    have bytes := length_le_bytes text
    have short := bounded.session
    rw [same, utf8_length] at short
    rw [same, textOf_utf8]
    omega
  have id : memberCost ("id", .str c.id) ≤ 296 :=
    memberCost_named "id" (by decide) (size_text bounded.id) (by decide)
  have text : memberCost ("session_id", .str (textOf c.sessionId)) ≤ 1216 :=
    memberCost_named "session_id" (by decide) (size_text session) (by decide)
  have expires : memberCost ("expires", .int c.expires) ≤ 31 := by
    have bounds := bounded.expires
    exact memberCost_named "expires" (by decide) (@size_int _ 19 (by omega) (by decide)) (by decide)
  simp only [List.map_cons, List.map_nil, List.sum_cons, List.sum_nil] at object
  simp only [cost, Termination.value]
  omega

structure IngestResponse.Bounded (r : IngestResponse) : Prop where
  firewall : ∀ p, r.firewall = some p → p.validate = .ok () ∧ p.Keyed
  accepted : r.accepted ≤ 500
  few_terminations : r.terminations.length ≤ 100
  terminations : ∀ c ∈ r.terminations, c.Bounded

theorem memberCost_firewall {r : IngestResponse} (bounded : r.Bounded) (nils : NilLists) :
    (((r.firewall.map fun p => ("firewall", Value.obj (policyMembers nils p))).toList).map memberCost).sum ≤ 799012 := by
  cases sent : r.firewall with
  | none => simp
  | some p =>
    obtain ⟨valid, keyed⟩ := bounded.firewall p sent
    have member : memberCost ("firewall", .obj (policyMembers nils p)) ≤ 799012 :=
      memberCost_named "firewall" (by decide) (size_policy (validate_bounded valid) keyed nils) (by decide)
    simpa using member

/-- The sum of the largest parts: it leaves less than a tenth of the limit. -/
theorem IngestResponse.Bounded.body_length {r : IngestResponse} (bounded : r.Bounded) (nils : NilLists) :
    (r.body nils).length ≤ 1 <<< 20 := by
  have object := size_obj (responseMembers nils r)
  have firewall := memberCost_firewall bounded nils
  have accepted : memberCost ("accepted", .int r.accepted) ≤ 16 := by
    have few := bounded.accepted
    exact memberCost_named "accepted" (by decide) (@size_int _ 3 (by omega) (by decide)) (by decide)
  have commands : ((r.terminations.map Termination.value).map cost).sum ≤ 154700 := by
    rw [List.map_map]
    exact @sum_bounded _ r.terminations (cost ∘ Termination.value) 1547 100 bounded.few_terminations fun c member =>
      cost_termination (bounded.terminations c member)
  have terminations : memberCost ("terminations", .arr (r.terminations.map Termination.value)) ≤ 154718 :=
    memberCost_named "terminations" (by decide) (Nat.le_trans (size_arr _) (Nat.add_le_add_right commands 2)) (by decide)
  have some_terminations := @memberCost_optional r.terminations.isEmpty _ _ terminations
  have newline : Char.utf8Size '\n' = 1 := by decide
  have limit : 1 <<< 20 = 1048576 := by decide
  have parts : ((responseMembers nils r).map memberCost).sum ≤ 953746 := by
    simp only [responseMembers, List.map_append, List.sum_append, List.map_cons, List.map_nil, List.sum_cons, List.sum_nil]
    omega
  rw [IngestResponse.body, utf8_size, ← size, size_append, size_cons, size_nil, newline, limit]
  omega

/-- The same answer; the names of an address map have no order. -/
structure IngestResponse.Same (r s : IngestResponse) : Prop where
  firewall : Option.Rel FirewallPolicy.Same r.firewall s.firewall
  accepted : r.accepted = s.accepted
  terminations : r.terminations = s.terminations

theorem decodeTermination_value {c : Termination} (bounded : c.Bounded) : decodeTermination c.value = some c := by
  obtain ⟨id, sessionId, expires⟩ := c
  obtain ⟨text, rfl⟩ := bounded.text
  have first : decodeTerminationField ⟨"", [], 0⟩ ("id", .str id) = some ⟨id, [], 0⟩ := by
    rw [decodeTerminationField, if_pos (by decide)]
    rfl
  have second : decodeTerminationField ⟨id, [], 0⟩ ("session_id", .str (textOf (utf8 text))) = some ⟨id, utf8 text, 0⟩ := by
    rw [decodeTerminationField, if_neg (by decide), if_pos (by decide), textOf_utf8]
    rfl
  have third : decodeTerminationField ⟨id, utf8 text, 0⟩ ("expires", .int expires) = some ⟨id, utf8 text, expires⟩ := by
    rw [decodeTerminationField, if_neg (by decide), if_neg (by decide), if_pos (by decide),
      decodeInt_int bounded.expires.1 bounded.expires.2]
    rfl
  simp only [decodeTermination, Termination.value, List.foldlM_cons, List.foldlM_nil, first, second, third,
    Option.bind_eq_bind, Option.bind_some, Option.pure_def]

theorem decodeResponse_members {r : IngestResponse} (bounded : r.Bounded) (nils : NilLists) :
    ∃ read, decodeResponse (.obj (responseMembers nils r)) = some read ∧ read.Same r := by
  obtain ⟨firewall, accepted, terminations⟩ := r
  obtain ⟨policy, first, same⟩ : ∃ policy,
      (firewall.map fun p => ("firewall", Value.obj (policyMembers nils p))).toList.foldlM decodeResponseField zeroResponse =
        some ⟨policy, 0, []⟩ ∧ Option.Rel FirewallPolicy.Same policy firewall := by
    cases firewall with
    | none => exact ⟨none, rfl, .none⟩
    | some p =>
      obtain ⟨valid, keyed⟩ := bounded.firewall p rfl
      refine ⟨some { p with allowedNames := sortedNames p.allowedNames }, ?_, .some ?_⟩
      · have read := decode_members (validate_accepted valid) keyed nils
        simp only [Option.map_some, Option.toList_some, List.foldlM_cons, List.foldlM_nil]
        rw [decodeResponseField, if_pos (by decide), decodePolicy]
        simp only [zeroResponse, Option.getD_none, read, Option.map_some]
        rfl
      · exact ⟨rfl, rfl, rfl, sortedNames_perm p.allowedNames, rfl, rfl, rfl⟩
  have second : decodeResponseField ⟨policy, 0, []⟩ ("accepted", .int accepted) = some ⟨policy, accepted, []⟩ := by
    have few : accepted ≤ 500 := bounded.accepted
    rw [decodeResponseField, if_neg (by decide), if_pos (by decide), decodeInt_int (by omega) (by omega)]
    rfl
  have third : (if terminations.isEmpty then []
      else [("terminations", Value.arr (terminations.map Termination.value))]).foldlM decodeResponseField
        ⟨policy, accepted, []⟩ = some ⟨policy, accepted, terminations⟩ := by
    refine decode_optional (fun empty => by rw [List.isEmpty_iff.mp empty]) ?_
    have items := decodeList_value (fun c (member : c ∈ terminations) =>
      decodeTermination_value (bounded.terminations c member)) false
    rw [decodeResponseField, if_neg (by decide), if_neg (by decide), if_pos (by decide)]
    exact congrArg (Option.map _) items
  refine ⟨⟨policy, accepted, terminations⟩, ?_, ⟨same, rfl, rfl⟩⟩
  simp only [decodeResponse, responseMembers, List.foldlM_append, List.foldlM_cons, List.foldlM_nil, first, second, third,
    Option.bind_eq_bind, Option.bind_some, Option.pure_def]

/-- A value and a line break are read back. -/
theorem decodeAnswer_write (value : Value) : decodeAnswer (write value ++ ['\n']) =
    match decodeResponse value with
    | some response => .ok response
    | none => .error "json" := by
  obtain ⟨char, tail, begins, plain, -⟩ := write_head value
  have read := (reads ((write value ++ ['\n']).length + 1)).value value ['\n']
    (by simp only [List.length_append]; omega) (by simp [isNumberChar])
  have started : (skip (write value ++ ['\n'])).isEmpty = false := by
    rw [begins, List.cons_append, skip_cons plain]
    rfl
  rw [decodeAnswer, started, read]
  rfl

theorem IngestResponse.Bounded.sendBatch {r : IngestResponse} (bounded : r.Bounded) (nils : NilLists) :
    ∃ read, SshLogger.sendBatch 200 (r.body nils) = .ok read ∧ read.Same r := by
  obtain ⟨read, decoded, same⟩ := decodeResponse_members bounded nils
  have whole : limitReader (1 <<< 20) (r.body nils) = r.body nils := List.take_of_length_le (bounded.body_length nils)
  refine ⟨read, ?_, same⟩
  rw [SshLogger.sendBatch, if_neg (by decide), whole, IngestResponse.body, fromUTF8_utf8]
  simp only [String.toList_ofList, decodeAnswer_write, decoded]

end SshLogger
