import SshLogger.PolicyCache
import SshLogger.Proofs.Ruleset

/-! A policy read back from the cache is the one that was saved. -/

namespace SshLogger
open Library Library.Json

variable {p : FirewallPolicy}

def FirewallPolicy.Keyed (p : FirewallPolicy) : Prop := (p.allowedNames.map Prod.fst).Nodup

/-- The same policy; the entries of a map have no order. -/
structure FirewallPolicy.Same (p q : FirewallPolicy) : Prop where
  revision : p.revision = q.revision
  mode : p.mode = q.mode
  allowed : p.allowed = q.allowed
  allowedNames : p.allowedNames.Perm q.allowedNames
  ports : p.ports = q.ports
  protectedIPs : p.protectedIPs = q.protectedIPs
  bans : p.bans = q.bans

theorem decodeList_value {α : Type} {item : Value → Option α} {value : α → Value} {items : List α}
    (each : ∀ a ∈ items, item (value a) = some a) (isNil : Bool) :
    decodeList item (listValue isNil (items.map value)) = some items := by
  have mapped : (items.map value).mapM item = some items := by
    induction items with
    | nil => rfl
    | cons first rest ih =>
      rw [List.map_cons, List.mapM_cons, each first List.mem_cons_self, ih fun a member => each a (List.mem_cons_of_mem _ member)]
      rfl
  unfold listValue
  split
  next empty =>
    have none : items = [] := by
      have both : isNil = true ∧ items = [] := by simpa using empty
      exact both.2
    rw [none]
    rfl
  · exact mapped

theorem decodeString_str (old value : String) : decodeString old (.str value) = some value := rfl

theorem decodeInt_int {old value : Int} (low : -2 ^ 63 ≤ value) (high : value < 2 ^ 63) :
    decodeInt old (.int value) = some value := by
  simp only [decodeInt, Value.int, readInt_intText]
  rw [Option.filter_some, if_pos]
  simp only [Bool.and_eq_true, decide_eq_true_eq]
  exact ⟨low, high⟩

theorem decodeBan_value (b : IPBan) : decodeBan (banValue b) = some b := by
  obtain ⟨ip, disconnect⟩ := b
  have ip_field : isField "ip" "ip" = true := by decide
  have other : isField "disconnect" "ip" = false := by decide
  have own : isField "disconnect" "disconnect" = true := by decide
  simp [decodeBan, banValue, decodeBanField, ip_field, other, own, decodeString, decodeBool]

theorem putName_new {names : List (String × String)} {key value : String} (new : key ∉ names.map Prod.fst) :
    putName names key value = names ++ [(key, value)] := by
  rw [putName, if_neg]
  intro found
  obtain ⟨entry, member, same⟩ := List.any_eq_true.mp found
  exact new (List.mem_map.mpr ⟨entry, member, eq_of_beq same⟩)

theorem decodeNames_from {names done : List (String × String)} (keyed : ((done ++ names).map Prod.fst).Nodup) :
    (names.map fun (ip, name) => (ip, Value.str name)).foldlM decodeName done = some (done ++ names) := by
  induction names generalizing done with
  | nil => simp
  | cons entry rest ih =>
    obtain ⟨ip, name⟩ := entry
    have new : ip ∉ done.map Prod.fst := by
      intro member
      rw [List.map_append, List.map_cons, List.nodup_append] at keyed
      exact keyed.2.2 ip member ip List.mem_cons_self rfl
    have more : ((done ++ [(ip, name)] ++ rest).map Prod.fst).Nodup := by simpa using keyed
    have step : decodeName done (ip, .str name) = some (done ++ [(ip, name)]) := by
      rw [decodeName, decodeString_str, Option.map_some, putName_new new]
    rw [List.map_cons, List.foldlM_cons, step]
    simpa using ih more

theorem sortedNames_perm (names : List (String × String)) : (sortedNames names).Perm names := List.mergeSort_perm _ _

theorem decodeNames_value (keyed : p.Keyed) : decodeNames []
    (.obj ((sortedNames p.allowedNames).map fun (ip, name) => (ip, .str name))) = some (sortedNames p.allowedNames) := by
  have sorted : (([] ++ sortedNames p.allowedNames).map Prod.fst).Nodup :=
    ((sortedNames_perm p.allowedNames).map Prod.fst).nodup_iff.mpr keyed
  exact decodeNames_from sorted

section
variable (q : FirewallPolicy) (value : Value)

theorem decodeField_revision : decodeField q ("revision", value) =
    (decodeString q.revision value).map fun revision => { q with revision } := by
  rw [decodeField, if_pos (by decide)]

theorem decodeField_mode : decodeField q ("mode", value) = (decodeString q.mode value).map fun mode => { q with mode } := by
  rw [decodeField, if_neg (by decide), if_pos (by decide)]

theorem decodeField_allowed : decodeField q ("allowed", value) =
    (decodeList (decodeString "") value).map fun allowed => { q with allowed } := by
  rw [decodeField, if_neg (by decide), if_neg (by decide), if_pos (by decide)]

theorem decodeField_allowedNames : decodeField q ("allowed_names", value) =
    (decodeNames q.allowedNames value).map fun allowedNames => { q with allowedNames } := by
  rw [decodeField, if_neg (by decide), if_neg (by decide), if_neg (by decide), if_pos (by decide)]

theorem decodeField_ports : decodeField q ("ports", value) =
    (decodeList (decodeInt 0) value).map fun ports => { q with ports } := by
  rw [decodeField, if_neg (by decide), if_neg (by decide), if_neg (by decide), if_neg (by decide), if_pos (by decide)]

theorem decodeField_protected : decodeField q ("protected", value) =
    (decodeList (decodeString "") value).map fun protectedIPs => { q with protectedIPs } := by
  rw [decodeField, if_neg (by decide), if_neg (by decide), if_neg (by decide), if_neg (by decide), if_neg (by decide),
    if_pos (by decide)]

theorem decodeField_bans : decodeField q ("bans", value) = (decodeList decodeBan value).map fun bans => { q with bans } := by
  rw [decodeField, if_neg (by decide), if_neg (by decide), if_neg (by decide), if_neg (by decide), if_neg (by decide),
    if_neg (by decide), if_pos (by decide)]

end

/-- A member that is left out when it has its zero value reads back all the same. -/
theorem decode_optional {σ : Type} {field : σ → String × Value → Option σ} {absent : Bool} {member : String × Value} {q r : σ}
    (zero : absent = true → q = r) (reads : field q member = some r) :
    (if absent then [] else [member]).foldlM field q = some r := by
  cases absent with
  | true => simp [zero rfl]
  | false => simp [reads]

theorem decode_members (accepted : Accepted p) (keyed : p.Keyed) (nils : NilLists) :
    (policyMembers nils p).foldlM decodeField zeroPolicy = some { p with allowedNames := sortedNames p.allowedNames } := by
  have revision : decodeField zeroPolicy ("revision", .str p.revision) = some ⟨p.revision, "", [], [], [], [], []⟩ :=
    decodeField_revision _ _
  have mode : (if p.mode == "" then [] else [("mode", Value.str p.mode)]).foldlM decodeField
      ⟨p.revision, "", [], [], [], [], []⟩ = some ⟨p.revision, p.mode, [], [], [], [], []⟩ :=
    decode_optional (fun empty => by rw [eq_of_beq empty]) (decodeField_mode _ _)
  have allowed : (if p.allowed.isEmpty then [] else [("allowed", Value.arr (p.allowed.map .str))]).foldlM decodeField
      ⟨p.revision, p.mode, [], [], [], [], []⟩ = some ⟨p.revision, p.mode, p.allowed, [], [], [], []⟩ := by
    refine decode_optional (fun empty => by rw [List.isEmpty_iff.mp empty]) ?_
    have items := decodeList_value (fun (a : String) (_ : a ∈ p.allowed) => decodeString_str "" a) false
    rw [decodeField_allowed]
    exact congrArg (Option.map _) items
  have names : (if p.allowedNames.isEmpty then []
      else [("allowed_names", Value.obj ((sortedNames p.allowedNames).map fun (ip, name) => (ip, .str name)))]).foldlM decodeField
      ⟨p.revision, p.mode, p.allowed, [], [], [], []⟩ =
        some ⟨p.revision, p.mode, p.allowed, sortedNames p.allowedNames, [], [], []⟩ := by
    refine decode_optional (fun empty => ?_) ?_
    · have sorted : sortedNames p.allowedNames = [] := by
        rw [← List.perm_nil, ← List.isEmpty_iff.mp empty]
        exact sortedNames_perm p.allowedNames
      rw [sorted]
    · rw [decodeField_allowedNames]
      exact congrArg (Option.map _) (decodeNames_value keyed)
  have ports := decodeList_value (fun port (member : port ∈ p.ports) =>
    have bounds := accepted.ports port member
    @decodeInt_int 0 port (by omega) (by omega)) nils.ports
  have protectedIPs := decodeList_value (fun (a : String) (_ : a ∈ p.protectedIPs) => decodeString_str "" a) nils.protectedIPs
  have bans := decodeList_value (fun b (_ : b ∈ p.bans) => decodeBan_value b) nils.bans
  simp only [policyMembers, List.foldlM_append, List.foldlM_cons, List.foldlM_nil, revision, mode, allowed, names,
    Option.bind_eq_bind, Option.bind_some, Option.pure_def, decodeField_ports, decodeField_protected, decodeField_bans, ports,
    protectedIPs, bans, Option.map_some]

theorem unmarshal_marshal (accepted : Accepted p) (keyed : p.Keyed) (nils : NilLists) :
    unmarshalPolicy (marshalPolicy nils p) = some { p with allowedNames := sortedNames p.allowedNames } := by
  rw [unmarshalPolicy, marshalPolicy, parse_write]
  exact decode_members accepted keyed nils

/-- The checks of a policy do not depend on the order of its names. -/
theorem validate_names {names : List (String × String)} (perm : names.Perm p.allowedNames) :
    ({ p with allowedNames := names } : FirewallPolicy).validate = p.validate := by
  have checked : names.any (fun (ip, name) => !p.allowed.contains ip || name.length > 100) =
      p.allowedNames.any fun (ip, name) => !p.allowed.contains ip || name.length > 100 := perm.any_eq
  simp only [FirewallPolicy.validate, checked]

theorem cachedFirewall_saved (valid : p.validate = .ok ()) (keyed : p.Keyed) (nils : NilLists) :
    ∃ q, cachedFirewall (some (marshalPolicy nils p)) = .ok (some q) ∧ q.Same p ∧ q.validate = .ok () := by
  have again := (validate_names (sortedNames_perm p.allowedNames)).trans valid
  refine ⟨{ p with allowedNames := sortedNames p.allowedNames }, ?_, ?_, again⟩
  · rw [cachedFirewall, unmarshal_marshal (validate_accepted valid) keyed nils]
    simp only [again]
  · exact ⟨rfl, rfl, rfl, sortedNames_perm p.allowedNames, rfl, rfl, rfl⟩

end SshLogger
