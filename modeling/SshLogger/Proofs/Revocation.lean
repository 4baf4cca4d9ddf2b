import SshLogger.Proofs.Acknowledgement

/-! A revoked server leaves no restrictions behind: when the revocation commits,
the agent has no policy that drops packets, and it can come by none afterwards. -/

namespace SshLogger
open Library Library.History

variable {hash owner : String → String} {home : String} {w after : Deployment} {act : Act}

theorem Deployment.Step.holds (moved : Deployment.Step hash owner home w act after) {p : FirewallPolicy}
    (held : after.agent.Holds p) : w.agent.Holds p ∨ w.Awaits p := by
  cases moved with
  | start => exact Or.inl (Agent.holds_start held)
  | stop => exact Or.inl (held.imp id (Or.imp id (Or.imp id (by simp [Agent.stop, Phase.policy]))))
  | collect =>
    rcases held with held | held | held | held
    · exact Or.inl (Or.inl ((collect_cache _ _ _ _ _ _).symm.trans held))
    · exact Or.inl (Or.inr (Or.inl held))
    · exact Or.inl (Or.inr (Or.inr (Or.inl held)))
    · cases held
  | wait => exact Or.inl (held.imp id (Or.imp id (Or.imp id (by simp [Agent.wait, Phase.policy]))))
  | beat => exact Or.inl (held.imp id (Or.imp id (Or.imp id (by simp [Phase.policy]))))
  | deliver => exact Or.inl held
  | @receive response request events waiting arrived =>
    exact (Agent.holds_receive held).imp id fun carries =>
      ⟨request, events, response, by simp [waiting, Phase.request], arrived, carries⟩
  | fail => exact Or.inl (Agent.holds_fail held)
  | save _ saving => exact Or.inl (Agent.holds_save saving held)
  | apply _ applying => exact Or.inl (Agent.holds_apply applying held)
  | finish =>
    rcases held with held | held | held | held
    · exact Or.inl (Or.inl ((ack_cache _ _ _).symm.trans held))
    · exact Or.inl (Or.inr (Or.inl held))
    · exact Or.inl (Or.inr (Or.inr (Or.inl held)))
    · cases held
  | serve => exact Or.inl held

/-- An answer that is awaited was awaited before, or the step has just produced it. -/
theorem Deployment.Step.awaits (delivery : DeliveryValid owner hash home w)
    (moved : Deployment.Step hash owner home w act after) {p : FirewallPolicy} (awaited : after.Awaits p) :
    w.Awaits p ∨ ∃ (request : Nat) (token : String) (b : Batch) (now : Int) (fresh : String) (stored : Bool)
      (response : IngestResponse), w.sent[request]? = some (token, b) ∧
      (ingest hash w.db.toFleet token b.coerced now fresh stored).1 = .ok response ∧ response.firewall = some p := by
  obtain ⟨n, events, response, asked, answer, carries⟩ := awaited
  cases moved with
  | start => simp [(Agent.start_phase w.agent _).1] at asked
  | stop => simp [Agent.stop, Phase.request] at asked
  | collect => simp [Agent.collect, Phase.request] at asked
  | wait => simp [Agent.wait, Phase.request] at asked
  | beat =>
    obtain ⟨rfl, -⟩ := Prod.mk.inj (Option.some.inj asked)
    obtain ⟨_, _, there, -⟩ := delivery.responses _ response answer
    simp at there
  | receive => simp [(Agent.receive_frame w.agent _ _).2.1] at asked
  | fail => simp [(Agent.fail_frame w.agent).2.1] at asked
  | @save stored q rest => simp [(Agent.save_frame w.agent q rest stored).2.2.1] at asked
  | @apply outcome q rest => simp [(Agent.apply_frame w.agent q rest outcome).2.1] at asked
  | finish => simp [Agent.finish, Phase.request] at asked
  | serve => exact Or.inl ⟨n, events, response, asked, answer, carries⟩
  | @deliver request now fresh stored token b there =>
    simp only [Deployment.deliver] at asked answer
    split at answer
    next served answered =>
      rcases List.mem_append.mp answer with old | new
      · exact Or.inl ⟨n, events, response, asked, old, carries⟩
      · obtain ⟨rfl, rfl⟩ := Prod.mk.inj (List.mem_singleton.mp new)
        exact Or.inr ⟨n, token, b, now, fresh, stored, response, there, answered, carries⟩
    · exact Or.inl ⟨n, events, response, asked, answer, carries⟩

/-- No policy that the agent has or may still receive drops packets. -/
structure Unrestricted (w : Deployment) : Prop where
  held : ∀ p, w.agent.Holds p → p.hasDropRules = false
  awaited : ∀ p, w.Awaits p → p.hasDropRules = false

/-- The check of a revocation is enough: an open policy that is confirmed is the
agent's only one, and without any change there is none but the empty one. -/
theorem FirewallValid.unrestricted (valid : FirewallValid home w) (open_ : hasPendingFirewall w.db.toFleet home = false) :
    Unrestricted w := by
  have free : ∀ p, w.Has p → p.hasDropRules = true → ∃ row ∈ w.db.firewallPolicies, row.serverId = home ∧
      row.policy.hasDropRules = false ∧ w.Settled row.policy := by
    intro p there drops
    have changed := valid.restricted p there drops
    obtain ⟨row, member, own⟩ := valid.rows.recorded home changed
    have passed := List.any_eq_false.mp open_ row member
    have history : (w.db.firewallHistory.any fun h => h.serverId == home) = true := by
      obtain ⟨h, listed, same⟩ := changed
      exact List.any_eq_true.mpr ⟨h, listed, by simpa using same⟩
    simp only [own, history, beq_self_eq_true, Bool.true_and, Bool.and_true, Bool.or_eq_true, not_or] at passed
    obtain ⟨⟨unbanned, mode⟩, confirmed⟩ := passed
    have applied : row.appliedRevision = row.revision := by simpa using Eq.symm (by simpa using confirmed)
    refine ⟨row, member, own, ?_, valid.settled row member own (Or.inr applied)⟩
    simp only [FirewallPolicy.hasDropRules, Bool.or_eq_false_iff]
    exact ⟨by simpa using mode, by simpa using unbanned⟩
  refine ⟨?_, ?_⟩
  · intro p held
    by_contra drops
    obtain ⟨row, -, -, none_dropped, settled⟩ := free p (Or.inl held) (by simpa using drops)
    exact drops (settled.held p held ▸ none_dropped)
  · intro p awaited
    by_contra drops
    obtain ⟨row, -, -, none_dropped, settled⟩ := free p awaited.has (by simpa using drops)
    exact drops (settled.awaited p awaited ▸ none_dropped)

structure IsRevoked (db : Fleet) (server : String) : Prop where
  listed : ∃ s ∈ db.servers, s.id = server
  revoked : ∀ s ∈ db.servers, s.id = server → s.revoked = true

theorem IsRevoked.unknown {db : Fleet} {server : String} (gone : IsRevoked db server) (tokenHash : String) :
    authenticate db tokenHash ≠ some server := by
  intro known
  obtain ⟨s, found, own⟩ := Option.map_eq_some_iff.mp known
  have active := List.find?_some found
  simp [gone.revoked s (List.mem_of_find?_eq_some found) own] at active

theorem TokenChanged.isRevoked {db after : Fleet} {id tokenHash : String}
    (done : TokenChanged db id tokenHash true after) : IsRevoked after id := by
  obtain ⟨accounts, who, ⟨s, member, chosen⟩, rfl⟩ := done.stored
  obtain ⟨⟨own, -⟩, allowed⟩ : (s.id = id ∧ s.revoked = false) ∧ scope accounts who s.id = true := by
    simpa [isEditable] using chosen
  refine ⟨⟨_, Rows.mem_update_of member chosen, own⟩, ?_⟩
  intro row listed same
  obtain ⟨old, there, ⟨-, rfl⟩ | ⟨missed, rfl⟩⟩ := Rows.mem_update.mp listed
  · rfl
  · simpa [isEditable, same, own ▸ allowed] using missed

theorem IsRevoked.update {db after : Fleet} {server : String} (gone : IsRevoked db server)
    {selected : ServerRow → Bool} {change : ServerRow → ServerRow}
    (servers : after.servers = Rows.update selected change db.servers) (keeps : ∀ s, (change s).id = s.id)
    (flags : ∀ s, selected s = true → s.revoked = true → (change s).revoked = true) : IsRevoked after server := by
  obtain ⟨⟨s, member, own⟩, revoked⟩ := gone
  refine ⟨?_, ?_⟩
  · obtain ⟨row, listed, same⟩ := Rows.exists_update keeps member
    exact ⟨row, servers ▸ listed, same.trans own⟩
  · intro row listed same
    obtain ⟨old, there, ⟨chosen, rfl⟩ | ⟨-, rfl⟩⟩ := Rows.mem_update.mp (servers ▸ listed)
    · exact flags old chosen (revoked old there ((keeps old).symm.trans same))
    · exact revoked old there same

theorem IsRevoked.serve {db : Db} {server : String} {now : Int} {request : Request} {fleet : Fleet}
    (gone : IsRevoked db.toFleet server) (effect : ServeEffect hash db now request fleet) : IsRevoked fleet server := by
  cases effect with
  | quiet => exact gone
  | requested done =>
    obtain ⟨username, rfl⟩ := done.stored
    exact ⟨gone.listed, gone.revoked⟩
  | changed _ done =>
    have same := done.frame.2.2.2
    exact ⟨same ▸ gone.listed, same ▸ gone.revoked⟩
  | created fresh =>
    obtain ⟨s, member, own⟩ := gone.listed
    refine ⟨⟨s, List.mem_append_left _ member, own⟩, ?_⟩
    intro row listed same
    rcases List.mem_append.mp listed with old | new
    · exact gone.revoked row old same
    · obtain rfl := List.mem_singleton.mp new
      exact absurd (own.trans same.symm) (fresh s member).1
  | renamed => exact gone.update rfl (by intro; rfl) (fun _ _ => id)
  | rotated done =>
    obtain ⟨accounts, who, -, rfl⟩ := done.stored
    refine gone.update rfl (by intro; rfl) fun s chosen revoked => ?_
    simp [isEditable, revoked] at chosen
  | ingested => exact gone.update (ingestAs_servers _ _ _ _ _) (by intro; rfl) (fun _ _ => id)

theorem IsRevoked.refuses {db : Fleet} (gone : IsRevoked db home) (owned : TokensOwned owner db) {token : String}
    (own : owner (hash token) = home) (b : Batch) (now : Int) (fresh : String) (stored : Bool) :
    ∃ problem, ingest hash db token b now fresh stored = (.error problem, db) := by
  rcases ingest_cases hash db token b now fresh stored with refused | ⟨server, known, -⟩
  · exact refused
  · obtain rfl : home = server := own.symm.trans (owned.authenticate known)
    exact absurd known (gone.unknown _)

/-- A revoked server and an agent without restrictions stay so. -/
theorem revoked_step (delivery : DeliveryValid owner hash home w) (moved : Deployment.Step hash owner home w act after)
    (free : Unrestricted w) (gone : IsRevoked w.db.toFleet home) :
    Unrestricted after ∧ IsRevoked after.db.toFleet home := by
  refine ⟨⟨?_, ?_⟩, ?_⟩
  · exact fun p held => (moved.holds held).elim (free.held p) (free.awaited p)
  · intro p awaited
    rcases moved.awaits delivery awaited with before | ⟨request, token, b, now, fresh, stored, response, there, answered, -⟩
    · exact free.awaited p before
    · obtain ⟨own, -⟩ := delivery.sent (token, b) (List.mem_of_getElem? there)
      obtain ⟨problem, refused⟩ := gone.refuses delivery.tokens own b.coerced now fresh stored
      rw [refused] at answered
      cases answered
  · cases moved with
    | @deliver request now fresh stored token b =>
      exact gone.serve (serve_effect hash w.db now stored (.ingest token b.coerced fresh))
    | serve request now stored => exact gone.serve (serve_effect hash w.db now stored request)
    | _ => exact gone

def Revokes (hash : String → String) (home : String) (t : Transition Deployment Act) : Prop :=
  ∃ who token now stored, t.action = .serve (.changeToken who home token true) now stored ∧
    (changeToken hash t.before.db.toFleet t.before.db.toAccounts who home token true stored).1 = .ok ()

structure RevocationFinal (hash owner : String → String) (home : String) (history : List (Transition Deployment Act))
    (w : Deployment) : Prop where
  committed : ∀ t ∈ history, Revokes hash home t → Unrestricted t.before
  unrestricted : ∀ t ∈ history, Revokes hash home t → Unrestricted w
  revoked : ∀ t ∈ history, Revokes hash home t → IsRevoked w.db.toFleet home
  refused : ∀ t ∈ history, Revokes hash home t → ∀ token, owner (hash token) = home → ∀ b now fresh stored,
    ∃ problem, ingest hash w.db.toFleet token b now fresh stored = (.error problem, w.db.toFleet)

theorem Revokes.changed {t : Transition Deployment Act} (revokes : Revokes hash home t)
    (moved : (deployment hash owner home).step t.before t.action t.after) :
    ∃ token, TokenChanged t.before.db.toFleet home (hash token) true t.after.db.toFleet ∧ t.after.agent = t.before.agent ∧
      t.after.responses = t.before.responses := by
  obtain ⟨w, act, after⟩ := t
  obtain ⟨who, token, now, stored, rfl, answered⟩ := revokes
  have step : Deployment.Step hash owner home w (.serve (.changeToken who home token true) now stored) after := moved
  cases step with
  | serve _ _ _ allowed =>
    refine ⟨token, ?_, rfl, rfl⟩
    rcases changeToken_cases hash w.db.toFleet w.db.toAccounts who home token true stored with ⟨-, refused⟩ | ⟨done, -⟩
    · exact absurd answered refused
    · exact done

theorem revocation_final {history : List (Transition Deployment Act)}
    (run : Run (deployment hash owner home) history w) : RevocationFinal hash owner home history w := by
  have committed : ∀ t ∈ history, Revokes hash home t → Unrestricted t.before := by
    intro t member revokes
    obtain ⟨older, before, moved⟩ := run.of_mem member
    obtain ⟨token, done, -⟩ := revokes.changed moved
    exact (firewall_valid before).unrestricted (done.unpending rfl)
  have final : ∀ t ∈ history, Revokes hash home t → Unrestricted w ∧ IsRevoked w.db.toFleet home := by
    intro t member revokes
    obtain ⟨token, done, agent, responses⟩ := revokes.changed (run.of_mem member).choose_spec.2
    have before := committed t member revokes
    obtain ⟨later, older, rfl⟩ := List.append_of_mem member
    refine run.persists (fun w => Unrestricted w ∧ IsRevoked w.db.toFleet home) ⟨⟨?_, ?_⟩, done.isRevoked⟩
      fun _ _ _ _ earlier held moved => revoked_step (delivery_valid earlier) moved held.1 held.2
    · exact fun p held => before.held p (agent ▸ held)
    · rintro p ⟨n, events, response, asked, answer, carries⟩
      exact before.awaited p ⟨n, events, response, agent ▸ asked, responses ▸ answer, carries⟩
  refine ⟨committed, fun t member revokes => (final t member revokes).1,
    fun t member revokes => (final t member revokes).2, ?_⟩
  intro t member revokes token own b now fresh stored
  exact (final t member revokes).2.refuses (delivery_valid run).tokens own b now fresh stored

/-- A server is revoked after its agent has confirmed that access control is off. -/
def offRequest : Request := .requestFirewall "s1" "root" ⟨"r0", "r1", "h1"⟩ (.settings [22] none (some "off"))

def offPolicy : FirewallPolicy := ⟨"r1", "off", [], [], [22], [], []⟩

def revokeRequest : Request := .changeToken ⟨"root", "super_admin"⟩ "s1" "t9" true

def revocationOwner (token : String) : String := if token = "t1" ∨ token = "t9" then "s1" else ""

theorem revocation_final_off : ∃ history w, RevocationFinal id revocationOwner "s1" history w ∧
    (∃ t ∈ history, Revokes id "s1" t) ∧ w.agent.table = some offPolicy := by
  have fresh : Run (deployment id revocationOwner "s1") [] deliveryStart := .start ⟨rfl, ⟨67108864, rfl⟩, rfl, rfl⟩
  have registered := fresh.next (.serve (.createServer ⟨"root", "super_admin"⟩ "web" "s1" "t1") 1000 true ⟨rfl, rfl⟩)
  have switched := registered.next (.serve offRequest 2000 true ⟨⟨by decide, by decide⟩, rfl⟩)
  have started := switched.next (.start true rfl)
  have read := started.next (.collect ⟨Bytes.utf8 "b", true, id⟩ quietLog 1000000 true true rfl)
  have sent := read.next (.beat "t1" true true (some []) rfl rfl)
  have answered := sent.next (.deliver 0 1000000 "p1" true rfl ⟨by decide, by decide⟩)
  have received := answered.next (.receive ⟨some offPolicy, 0, []⟩ rfl (by decide +kernel))
  have saved := received.next (.save true rfl)
  have loaded := saved.next (@Deployment.Step.apply _ _ _ _ .loaded offPolicy (some ⟨[], []⟩) (by decide +kernel))
  have finished := loaded.next (@Deployment.Step.finish _ _ _ _ (fun _ => []) true ⟨[], []⟩ (by decide +kernel))
  have again := finished.next (.collect ⟨Bytes.utf8 "b", true, id⟩ quietLog 2000000 true true rfl)
  have reported := again.next (@Deployment.Step.beat _ _ _ _ "t1" true true (some []) (Bytes.utf8 "ok")
    (by decide +kernel) rfl)
  have confirmed := reported.next (.deliver 1 2000000 "p2" true rfl ⟨by decide, by decide⟩)
  have revoked := confirmed.next (.serve revokeRequest 3000000 true ⟨rfl, rfl⟩)
  refine ⟨_, _, revocation_final revoked, ⟨_, List.mem_cons_self, _, _, _, _, rfl, ?_⟩, by decide +kernel⟩
  decide +kernel

end SshLogger
