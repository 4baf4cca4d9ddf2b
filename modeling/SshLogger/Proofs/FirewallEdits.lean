import SshLogger.Access
import SshLogger.Proofs.Serving

/-! Firewall edits refine the ordered map of hosts. A stored policy represents an
access when it lists the same hosts under their canonical spelling; every request
and every heartbeat keeps the policy a representation of the guard that sees them. -/

namespace SshLogger
open Library Library.Netip Library.History

theorem readHost_text (host : Host) : readHost host.text = some host := by
  obtain ⟨addr, usable⟩ := host
  have read : parseAddr (addrText addr) = some addr := parseAddr_addrText usable.wellFormed usable.unzoned
  simp only [readHost, Host.text, read, Option.bind_some, usable.unmapped, usable.unzoned, true_and]
  exact dif_pos usable

theorem Host.text_injective : Function.Injective Host.text := by
  intro first second same
  have read := readHost_text first
  rw [same, readHost_text second] at read
  exact (Option.some.inj read).symm

theorem canonicalIP_host {raw : String} {host : Host} (read : readHost raw = some host) :
    canonicalIP raw = .ok host.text := by
  obtain ⟨addr, parsed, made⟩ := Option.bind_eq_some_iff.mp read
  split at made
  next usable =>
    cases made
    simp only [canonicalIP, parsed, usable.1, usable.2.ordinary, List.isEmpty_nil, Bool.not_true, Bool.false_eq_true, if_false]
    rfl
  · cases made

theorem canonicalIP_none {raw : String} (read : readHost raw = none) : ∃ message, canonicalIP raw = .error message := by
  simp only [canonicalIP]
  cases parsed : parseAddr raw with
  | none => exact ⟨_, rfl⟩
  | some addr =>
    simp only [readHost, parsed, Option.bind_some] at read
    dsimp only
    split
    · exact ⟨_, rfl⟩
    next unzoned =>
      have unzoned : zone addr = [] := by simpa using unzoned
      split
      · exact ⟨_, rfl⟩
      next ordinary =>
        have usable : IsHost (unmap addr) := ⟨unmap_wellFormed (parseAddr_wellFormed parsed), zone_unmap unzoned,
          unmap_unmap addr, by simpa using ordinary⟩
        rw [dif_pos ⟨unzoned, usable⟩] at read
        cases read

theorem isCanonicalIP_text (host : Host) : isCanonicalIP host.text = true := by
  simp [isCanonicalIP, canonicalIP_host (readHost_text host)]

theorem contains_text {hosts : List Host} {host : Host} : (hosts.map Host.text).contains host.text = decide (host ∈ hosts) := by
  rw [Bool.eq_iff_iff, List.contains_iff_mem, decide_eq_true_iff, List.mem_map_of_injective Host.text_injective]

def banOf (entry : Host × Bool) : IPBan := ⟨entry.1.text, entry.2⟩

/-- The policy stands for this access: the hosts in the order they were added, a
name exactly for each host that has one, and every address in canonical form. -/
structure Represents (p : FirewallPolicy) (a : Access) : Prop where
  mode : p.mode = a.mode.text
  ports : p.ports = a.ports
  allowed : p.allowed = a.allowed.keys.map Host.text
  named : Rows.Unique Prod.fst p.allowedNames
  names : ∀ ip name, (ip, name) ∈ p.allowedNames ↔ ∃ host : Host, host.text = ip ∧ (host, some name) ∈ a.allowed.entries
  protectedIPs : p.protectedIPs = a.protectedIPs.map Host.text
  bans : p.bans = a.bans.entries.map banOf

theorem emptyPolicy_represents (revision : String) : Represents (emptyPolicy revision) .default :=
  ⟨rfl, rfl, rfl, Rows.unique_nil _, by simp [emptyPolicy, Access.default, OrderedMap.empty], rfl, rfl⟩

theorem Represents.revised {p : FirewallPolicy} {a : Access} (represents : Represents p a) (revision : String) :
    Represents { p with revision } a :=
  ⟨represents.1, represents.2, represents.3, represents.4, represents.5, represents.6, represents.7⟩

theorem putBan_map {host : Host} {disconnect : Bool} {entries : List (Host × Bool)} (distinct : Rows.Unique Prod.fst entries) :
    putBan ⟨host.text, disconnect⟩ (entries.map banOf) =
      (Rows.upsert Prod.fst (host, disconnect) (fun entry => (entry.1, disconnect)) entries).map banOf := by
  induction entries with
  | nil => rfl
  | cons first rest ih =>
    obtain ⟨fresh, others⟩ := List.nodup_cons.mp distinct
    by_cases same : first.1 = host
    · have absent : ∀ entry ∈ rest, (entry.1 == host) = false := by
        intro entry member
        simp only [beq_eq_false_iff_ne]
        rintro rfl
        exact fresh (same ▸ List.mem_map_of_mem member)
      have found : Rows.has Prod.fst host (first :: rest) = true := Rows.has_iff.mpr ⟨first, List.mem_cons_self, same⟩
      have kept : Rows.update (fun entry => entry.1 == host) (fun entry => (entry.1, disconnect)) rest = rest :=
        Rows.update_eq_self absent
      simp only [Rows.upsert, found, if_true, Rows.update_cons]
      simp [putBan, banOf, same, kept]
    · have other : ((banOf first).ip == host.text) = false := by
        simp only [banOf, beq_eq_false_iff_ne]
        exact fun equal => same (Host.text_injective equal)
      have has : Rows.has Prod.fst host (first :: rest) = Rows.has Prod.fst host rest := by simp [Rows.has, same]
      simp only [List.map_cons, putBan, other, Bool.false_eq_true, if_false, ih others, Rows.upsert, has]
      split
      · simp [Rows.update_cons, same]
      · rfl

theorem mem_setAllowedName {p : FirewallPolicy} {ip raw : String} {entry : String × String} :
    entry ∈ (setAllowedName p ip (some raw)).allowedNames ↔
      entry ∈ p.allowedNames ∧ entry.1 ≠ ip ∨ entry.1 = ip ∧ some entry.2 = editName raw := by
  simp only [setAllowedName, editName]
  split
  · simp
  · simp only [List.mem_append, Rows.mem_delete, beq_eq_false_iff_ne, List.mem_singleton, Prod.ext_iff, Option.some.injEq]

theorem setAllowedName_unique {p : FirewallPolicy} (named : Rows.Unique Prod.fst p.allowedNames) (ip : String)
    (name : Option String) : Rows.Unique Prod.fst (setAllowedName p ip name).allowedNames := by
  cases name with
  | none => exact named
  | some raw =>
    simp only [setAllowedName]
    split
    · exact named.delete _
    · refine (named.delete _).append fun old member => ?_
      simpa using (Rows.mem_delete.mp member).2

theorem setAllowedName_rest (p : FirewallPolicy) (ip : String) (name : Option String) :
    setAllowedName p ip name = { p with allowedNames := (setAllowedName p ip name).allowedNames } := by
  cases name with
  | none => rfl
  | some raw =>
    simp only [setAllowedName]
    split <;> rfl

section
variable {p : FirewallPolicy} {a : Access}

/-- Naming a host and listing it, in whichever of the two structures it is new. -/
theorem Represents.put (represents : Represents p a) (host : Host) (name : Option String) :
    Represents { setAllowedName p host.text name with
        allowed := if p.allowed.contains host.text then p.allowed else p.allowed ++ [host.text] }
      { a with allowed := a.allowed.put host ((name.map editName).getD none) (name.map editName).getD } := by
  rw [setAllowedName_rest]
  refine ⟨represents.mode, represents.ports, ?_, setAllowedName_unique represents.named _ _, ?_, represents.protectedIPs,
    represents.bans⟩
  · simp only [OrderedMap.keys_put, represents.allowed, contains_text, decide_eq_true_eq]
    split <;> simp
  · intro ip value
    cases name with
    | none =>
      have merge : (Option.getD none : Option String → Option String) = id := rfl
      rw [setAllowedName, represents.names, Option.map_none, merge]
      simp [OrderedMap.mem_put_id]
    | some raw =>
      have merge : (some (editName raw)).getD = fun _ => editName raw := rfl
      rw [mem_setAllowedName, represents.names, Option.map_some, merge]
      simp only [OrderedMap.mem_put_const, Prod.mk.injEq]
      constructor
      · rintro (⟨⟨other, rfl, stored⟩, different⟩ | ⟨rfl, chosen⟩)
        · exact ⟨other, rfl, Or.inl ⟨stored, fun same => different (congrArg Host.text same)⟩⟩
        · exact ⟨host, rfl, Or.inr ⟨rfl, chosen⟩⟩
      · rintro ⟨other, rfl, ⟨stored, different⟩ | ⟨rfl, chosen⟩⟩
        · exact Or.inl ⟨⟨other, rfl, stored⟩, fun same => different (Host.text_injective same)⟩
        · exact Or.inr ⟨rfl, chosen⟩

theorem Represents.remove (represents : Represents p a) (host : Host) :
    Represents { p with
        allowed := p.allowed.filter (· != host.text)
        allowedNames := Rows.delete (fun entry => entry.1 == host.text) p.allowedNames }
      { a with allowed := a.allowed.erase host } := by
  refine ⟨represents.mode, represents.ports, ?_, represents.named.delete _, ?_, represents.protectedIPs, represents.bans⟩
  · simp only [OrderedMap.keys_erase, represents.allowed, List.filter_map]
    refine congrArg _ (List.filter_congr fun other _ => ?_)
    simp only [Function.comp_apply, bne, Host.text_injective.beq_eq]
  · intro ip value
    simp only [Rows.mem_delete, beq_eq_false_iff_ne, represents.names, OrderedMap.mem_erase]
    constructor
    · rintro ⟨⟨other, rfl, stored⟩, different⟩
      exact ⟨other, rfl, stored, fun same => different (congrArg Host.text same)⟩
    · rintro ⟨other, rfl, stored, different⟩
      exact ⟨⟨other, rfl, stored⟩, fun same => different (Host.text_injective same)⟩

theorem Represents.ban (represents : Represents p a) (host : Host) (disconnect : Bool) :
    Represents { p with bans := putBan ⟨host.text, disconnect⟩ p.bans }
      { a with bans := a.bans.put host disconnect fun _ => disconnect } :=
  ⟨represents.mode, represents.ports, represents.allowed, represents.named, represents.names, represents.protectedIPs, by
    rw [represents.bans, putBan_map a.bans.distinct]
    rfl⟩

theorem Represents.unban (represents : Represents p a) (host : Host) :
    Represents { p with bans := Rows.delete (fun b => b.ip == host.text) p.bans } { a with bans := a.bans.erase host } := by
  refine ⟨represents.mode, represents.ports, represents.allowed, represents.named, represents.names, represents.protectedIPs, ?_⟩
  simp only [represents.bans, Rows.delete, List.filter_map, OrderedMap.erase]
  refine congrArg _ (List.filter_congr fun entry _ => ?_)
  simp only [Function.comp_apply, banOf, Host.text_injective.beq_eq]

end

theorem canonicalIPs_some {ips : List String} {hosts : List Host} (read : ips.mapM readHost = some hosts) :
    ips.mapM canonicalIP = .ok (hosts.map Host.text) := by
  induction ips generalizing hosts with
  | nil =>
    cases read
    rfl
  | cons ip rest ih =>
    simp only [List.mapM_cons, Option.pure_def, Option.bind_eq_bind, Option.bind_eq_some_iff, Option.some.injEq] at read
    obtain ⟨host, here, others, there, rfl⟩ := read
    rw [List.mapM_cons, canonicalIP_host here, ih there]
    rfl

theorem canonicalIPs_none {ips : List String} (read : ips.mapM readHost = none) :
    ∃ message, ips.mapM canonicalIP = .error message := by
  induction ips with
  | nil => cases read
  | cons ip rest ih =>
    rw [List.mapM_cons] at read ⊢
    cases here : readHost ip with
    | none =>
      obtain ⟨message, refused⟩ := canonicalIP_none here
      exact ⟨message, by rw [refused]; rfl⟩
    | some host =>
      cases there : rest.mapM readHost with
      | none =>
        obtain ⟨message, refused⟩ := ih there
        exact ⟨message, by rw [canonicalIP_host here, refused]; rfl⟩
      | some hosts =>
        rw [here, there] at read
        cases read

theorem canonicalIPs_unread {protectedIPs : Option (List String)} (read : editHosts protectedIPs = none) :
    ∃ message, (protectedIPs.getD []).mapM canonicalIP = .error message := by
  cases protectedIPs with
  | none => cases read
  | some ips => exact canonicalIPs_none (Option.map_eq_none_iff.mp read)

theorem canonical_settings {ports : List Int} {protectedIPs : Option (List String)} {mode : Option String}
    {hosts : Option (List Host)} (read : editHosts protectedIPs = some hosts) :
    (FirewallChange.settings ports protectedIPs mode).canonical =
      .ok ("", .settings ports (hosts.map (·.map Host.text)) mode) := by
  cases protectedIPs with
  | none =>
    cases read
    rfl
  | some ips =>
    obtain ⟨hosts, listed, rfl⟩ := Option.map_eq_some_iff.mp read
    simp only [FirewallChange.canonical, Option.getD_some, canonicalIPs_some listed]
    rfl

theorem guarded_ok {refused : Prop} [Decidable refused] {message : String} {rest : Except String Unit} :
    (if refused then .error message else rest) = .ok () ↔ ¬ refused ∧ rest = .ok () := by
  split <;> simp [*]

theorem AccessMode.text_known (mode : AccessMode) : (mode.text != "" && mode.text != "allowlist" && mode.text != "off") = false := by
  cases mode <;> decide

theorem AccessMode.text_eq_allowlist {mode : AccessMode} : (mode.text == "allowlist") = decide (mode = .allowlist) := by
  cases mode <;> decide

theorem AccessMode.text_eq_empty {mode : AccessMode} : (mode.text != "") = decide (mode ≠ .legacy) := by
  cases mode <;> decide

section
variable {p : FirewallPolicy} {a : Access}

/-- The outcome of an edit and of the change of a policy agree: both are refused,
or the policy they lead to represents the access they lead to. -/
def Agrees (edited : Option Access) (changed : Except String FirewallPolicy) : Prop :=
  (edited = none ∧ ∃ message, changed = .error message) ∨
    ∃ next q, edited = some next ∧ changed = .ok q ∧ Represents q next

/-- A request is refused as unreadable, or changes the policy as its edit does the access. -/
def Refines (p : FirewallPolicy) (a : Access) (asked : FirewallChange) : Prop :=
  (asked.edit = none ∧ ∃ message, asked.canonical = .error message) ∨
    ∃ ip change, asked.canonical = .ok (ip, change) ∧ Agrees (asked.edit.bind a.apply) (change.apply p)

/-- Requests about one host. -/
theorem Refines.host {asked : FirewallChange} {ip : String} (change : String → FirewallChange) (edit : Host → Edit)
    (canonical : asked.canonical = canonicalIP ip >>= fun ip => .ok (ip, change ip))
    (meant : asked.edit = (readHost ip).map edit)
    (agrees : ∀ host, Agrees (a.apply (edit host)) ((change host.text).apply p)) : Refines p a asked := by
  cases read : readHost ip with
  | none =>
    obtain ⟨message, refused⟩ := canonicalIP_none read
    exact Or.inl ⟨by rw [meant, read]; rfl, message, by rw [canonical, refused]; rfl⟩
  | some host =>
    refine Or.inr ⟨host.text, change host.text, by rw [canonical, canonicalIP_host read]; rfl, ?_⟩
    rw [meant, read]
    exact agrees host

theorem Represents.contains (represents : Represents p a) (host : Host) :
    p.allowed.contains host.text = decide (host ∈ a.allowed.keys) := by
  rw [represents.allowed, contains_text]

theorem Represents.refines (represents : Represents p a) (asked : FirewallChange) : Refines p a asked := by
  cases asked with
  | ban ip disconnect =>
    refine .host (.ban · disconnect) (.ban · disconnect) rfl rfl fun host => ?_
    by_cases legacy : a.mode = .legacy
    · refine Or.inr ⟨_, _, if_pos legacy, if_neg ?_, represents.ban host disconnect⟩
      simp [represents.mode, AccessMode.text_eq_empty, legacy]
    · refine Or.inl ⟨if_neg legacy, _, if_pos ?_⟩
      simp [represents.mode, AccessMode.text_eq_empty, legacy]
  | unban ip =>
    exact .host .unban .unban rfl rfl fun host => Or.inr ⟨_, _, rfl, rfl, represents.unban host⟩
  | allow ip name =>
    refine .host (.allow · name) (.allow · (name.map editName)) rfl rfl fun host => ?_
    refine Or.inr ⟨_, _, rfl, rfl, ?_⟩
    have put := represents.put host name
    rw [setAllowedName_rest] at put ⊢
    cases listed : p.allowed.contains host.text with
    | true => simpa only [listed, if_true] using put
    | false => simpa only [listed, Bool.false_eq_true, if_false] using put
  | updateAllow ip name =>
    cases name with
    | none =>
      refine Or.inl ⟨by simp [FirewallChange.edit], ?_⟩
      cases canonical : canonicalIP ip with
      | error message => exact ⟨message, by simp only [FirewallChange.canonical, canonical]; rfl⟩
      | ok ip => exact ⟨_, by simp only [FirewallChange.canonical, canonical]; rfl⟩
    | some name =>
      refine .host (.updateAllow · (some name)) (.rename · (editName name)) rfl ?_ fun host => ?_
      · cases read : readHost ip <;> simp [FirewallChange.edit, read]
      · by_cases listed : host ∈ a.allowed.keys
        · refine Or.inr ⟨_, _, if_pos listed, if_pos ?_, ?_⟩
          · rw [represents.contains, decide_eq_true listed]
          · have put : Represents _ { a with allowed := a.allowed.put host (editName name) fun _ => editName name } :=
              represents.put host (some name)
            rw [setAllowedName_rest] at put ⊢
            simpa only [represents.contains, decide_eq_true listed, if_true] using put
        · refine Or.inl ⟨if_neg listed, _, if_neg ?_⟩
          rw [represents.contains, decide_eq_false listed]
          exact Bool.false_ne_true
  | removeAllow ip =>
    exact .host .removeAllow .remove rfl rfl fun host => Or.inr ⟨_, _, rfl, rfl, represents.remove host⟩
  | settings ports protectedIPs mode =>
    cases read : editHosts protectedIPs with
    | none =>
      obtain ⟨message, refused⟩ := canonicalIPs_unread read
      exact Or.inl ⟨by simp [FirewallChange.edit, read], message, by simp only [FirewallChange.canonical, refused]; rfl⟩
    | some hosts =>
      refine Or.inr ⟨"", .settings ports (hosts.map (·.map Host.text)) mode, canonical_settings read, ?_⟩
      have kept : (hosts.map (·.map Host.text)).getD p.protectedIPs = (hosts.getD a.protectedIPs).map Host.text := by
        cases hosts with
        | none => exact represents.protectedIPs
        | some hosts => rfl
      simp only [FirewallChange.edit, read, Option.bind_some]
      cases mode with
      | none =>
        exact Or.inr ⟨_, _, rfl, rfl, represents.mode, rfl, represents.allowed, represents.named, represents.names, kept,
          represents.bans⟩
      | some mode =>
        simp only [editMode, FirewallChange.apply]
        split
        next allowlist =>
          obtain rfl : mode = "allowlist" := by simpa using allowlist
          exact Or.inr ⟨_, _, rfl, rfl, rfl, rfl, represents.allowed, represents.named, represents.names, kept, rfl⟩
        next not_allowlist =>
          split
          next off =>
            obtain rfl : mode = "off" := by simpa using off
            exact Or.inr ⟨_, _, rfl, rfl, rfl, rfl, represents.allowed, represents.named, represents.names, kept, rfl⟩
          next not_off =>
            refine Or.inl ⟨rfl, _, if_pos ?_⟩
            simp only [beq_iff_eq] at not_allowlist not_off
            simp [not_allowlist, not_off]

theorem Represents.names_fit (represents : Represents p a) :
    (p.allowedNames.any fun (ip, name) => !p.allowed.contains ip || name.length > 100) = false ↔
      ∀ entry ∈ a.allowed.entries, ∀ name ∈ entry.2, name.length ≤ 100 := by
  simp only [List.any_eq_false, Bool.or_eq_true, Bool.not_eq_true', decide_eq_true_eq, not_or, Prod.forall, Bool.not_eq_false,
    not_lt, represents.names]
  constructor
  · rintro fits host named stored name rfl
    exact (fits host.text name ⟨host, rfl, stored⟩).2
  · rintro fits _ name ⟨host, rfl, stored⟩
    rw [represents.contains, decide_eq_true (OrderedMap.mem_keys.mpr ⟨_, stored⟩)]
    exact ⟨rfl, fits _ _ stored name rfl⟩

theorem Represents.bans_fit (represents : Represents p a) :
    (p.bans.all (fun b => isCanonicalIP b.ip && !p.protectedIPs.contains b.ip) && decide (p.bans.map IPBan.ip).Nodup) = true ↔
      ∀ host ∈ a.bans.keys, host ∉ a.protectedIPs := by
  have texts : (a.bans.entries.map banOf).map IPBan.ip = a.bans.keys.map Host.text := by
    simp [OrderedMap.keys, banOf, Function.comp_def]
  have distinct : (a.bans.keys.map Host.text).Nodup := a.bans.keys_nodup.map Host.text_injective
  rw [represents.bans, represents.protectedIPs, texts, decide_eq_true distinct, Bool.and_true, List.all_map, List.all_eq_true]
  simp only [Function.comp_apply, banOf, isCanonicalIP_text, contains_text, Bool.true_and, Bool.not_eq_true', decide_eq_false_iff_not,
    OrderedMap.keys, List.forall_mem_map]

/-- A policy passes the checks exactly when its revision can be stored and what it represents is valid. -/
theorem Represents.validate (represents : Represents p a) :
    p.validate = .ok () ↔ (p.revision == "" || p.revision.utf8ByteSize > 100) = false ∧ a.Valid := by
  have listed : (p.allowed.all isCanonicalIP && decide p.allowed.Nodup) = true := by
    rw [represents.allowed]
    simp [isCanonicalIP_text, List.nodup_map_iff Host.text_injective, a.allowed.keys_nodup]
  have guarded : p.protectedIPs.all isCanonicalIP = true := by
    rw [represents.protectedIPs]
    simp [isCanonicalIP_text]
  have known : (p.mode != "" && p.mode != "allowlist" && p.mode != "off") = false := by
    rw [represents.mode, AccessMode.text_known]
  simp only [FirewallPolicy.validate, guarded_ok, listed, guarded, known, Bool.not_eq_true, represents.names_fit,
    Bool.not_eq_false', represents.bans_fit, Bool.not_true]
  simp only [represents.mode, represents.allowed, represents.ports, represents.bans, represents.protectedIPs,
    AccessMode.text_eq_empty, AccessMode.text_eq_allowlist, List.length_map, OrderedMap.length_keys]
  simp only [true_and, and_true, Bool.and_eq_false_imp, Bool.or_eq_false_iff, decide_eq_true_eq, decide_eq_false_iff_not, gt_iff_lt,
    Nat.not_lt, beq_eq_false_iff_ne, List.any_eq_false, Bool.or_eq_true, not_or, Int.not_lt, ne_eq, List.length_eq_zero_iff,
    Nat.le_zero]
  constructor
  · rintro ⟨unbanned, enabled, allowed, names, ⟨⟨⟨⟨⟨some_revision, short⟩, some_port⟩, few⟩, protectedIPs⟩, bans⟩, ports,
      unprotected⟩
    exact ⟨⟨some_revision, short⟩, unbanned, enabled, unprotected, ⟨some_port, few, ports⟩, ⟨allowed, protectedIPs, bans⟩, names⟩
  · rintro ⟨⟨some_revision, short⟩, unbanned, enabled, unprotected, ⟨some_port, few, ports⟩, ⟨allowed, protectedIPs, bans⟩, names⟩
    exact ⟨unbanned, enabled, allowed, names, ⟨⟨⟨⟨⟨some_revision, short⟩, some_port⟩, few⟩, protectedIPs⟩, bans⟩, ports, unprotected⟩

end

end SshLogger
