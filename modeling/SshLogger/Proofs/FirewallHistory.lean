import SshLogger.Proofs.FirewallRuns

/-! The firewall history tells what became of every change. The status of a row
follows from two facts of the run: the last result the agent reported for its
revision while that was the current one, and whether it still is. -/

namespace SshLogger
open Library Library.History

def currentRevision (db : Fleet) (server : String) : Option String := (policyRow db server).map PolicyRow.revision

/-- A result as the server judges it: a policy that the agent does not support is not applied. -/
structure Report where
  accepted : Bool
  error : Bytes

section
variable (hash : String → String) (server revision : String)

/-- The heartbeat's result for this revision, if that is the current one. -/
def reportOf (db : Db) (act : Served) : Option Report :=
  match act.request with
  | .ingest token b fresh =>
    b.firewallResult.bind fun result =>
      if authenticate db.toFleet (hash token) = some server ∧
          (ingest hash db.toFleet token b act.now fresh act.stored).1.isOk = true ∧
          result.revision = revision ∧ currentRevision db.toFleet server = some revision then
        some ⟨result.error == [] && isCompatible (readPolicy db.toFleet server fresh) b, result.error⟩
      else none
  | _ => none

/-- The newest such result of a run. -/
def lastReport : List (Transition ServerState Served) → Option Report
  | [] => none
  | t :: older => reportOf hash server revision t.before.db t.action <|> lastReport older

end

def statusAfter (report : Option Report) (current : Bool) : Status :=
  match report with
  | some report => if report.accepted then .succeeded else .failed
  | none => if current then .pending else .superseded

def revisionsDrawn (history : List (Transition ServerState Served)) : List String := history.filterMap fun t => t.action.request.draw

structure RowTruth (hash : String → String) (history : List (Transition ServerState Served)) (db : Fleet)
    (row : HistoryRow) : Prop where
  status : row.status = statusAfter (lastReport hash row.serverId row.revision history)
    (decide (currentRevision db row.serverId = some row.revision))
  error : row.error = ((lastReport hash row.serverId row.revision history).map Report.error).getD []

structure HistoryValid (hash : String → String) (history : List (Transition ServerState Served)) (db : Fleet) : Prop where
  ids : Rows.Unique HistoryRow.id db.firewallHistory
  distinct : Rows.Unique HistoryRow.revision db.firewallHistory
  named : ∀ server row, policyRow db server = some row → row.policy.revision = row.revision
  recorded : ∀ row ∈ db.firewallHistory, currentRevision db row.serverId ≠ none
  rows : ∀ row ∈ db.firewallHistory, row.revision ∈ revisionsDrawn history
  policies : ∀ server revision, currentRevision db server = some revision → revision ∈ revisionsDrawn history
  reports : ∀ server revision, lastReport hash server revision history ≠ none → revision ∈ revisionsDrawn history
  truth : ∀ row ∈ db.firewallHistory, RowTruth hash history db row

section
variable {hash : String → String} {history : List (Transition ServerState Served)} {t : Transition ServerState Served}

theorem mem_revisionsDrawn {revision : String} (listed : revision ∈ revisionsDrawn history) :
    revision ∈ revisionsDrawn (t :: history) := by
  simp only [revisionsDrawn, List.filterMap_cons]
  split
  · exact listed
  · exact List.mem_cons_of_mem _ listed

theorem lastReport_cons (server revision : String) : lastReport hash server revision (t :: history) =
    (reportOf hash server revision t.before.db t.action <|> lastReport hash server revision history) := rfl

/-- Only a heartbeat that was answered reports anything. -/
theorem reportOf_none {server revision : String} {db : Db} {act : Served}
    (quiet : ∀ token b fresh, act.request = .ingest token b fresh →
      authenticate db.toFleet (hash token) = some server →
        (ingest hash db.toFleet token b act.now fresh act.stored).1.isOk = false) :
    reportOf hash server revision db act = none := by
  unfold reportOf
  split
  next token b fresh request =>
    refine Option.bind_eq_none_iff.mpr fun result _ => if_neg ?_
    rintro ⟨known, answered, -⟩
    rw [quiet token b fresh request known] at answered
    cases answered
  · rfl

/-- A step that leaves both tables alone and reports nothing. -/
theorem HistoryValid.quiet {after : Fleet} (valid : HistoryValid hash history t.before.db.toFleet)
    (policies : after.firewallPolicies = t.before.db.firewallPolicies)
    (rows : after.firewallHistory = t.before.db.firewallHistory)
    (unreported : ∀ server revision, reportOf hash server revision t.before.db t.action = none) :
    HistoryValid hash (t :: history) after := by
  have same : ∀ server, policyRow after server = policyRow t.before.db.toFleet server := fun server => by
    rw [policyRow, policies, policyRow]
  have last : ∀ server revision, lastReport hash server revision (t :: history) = lastReport hash server revision history :=
    fun server revision => by rw [lastReport_cons, unreported]; rfl
  constructor
  · exact rows ▸ valid.ids
  · exact rows ▸ valid.distinct
  · intro server row found
    exact valid.named server row (same server ▸ found)
  · intro row listed
    rw [currentRevision, same]
    exact valid.recorded row (rows ▸ listed)
  · intro row listed
    exact mem_revisionsDrawn (valid.rows row (rows ▸ listed))
  · intro server revision current
    rw [currentRevision, same] at current
    exact mem_revisionsDrawn (valid.policies server revision current)
  · intro server revision reported
    rw [last] at reported
    exact mem_revisionsDrawn (valid.reports server revision reported)
  · intro row listed
    obtain ⟨status, error⟩ := valid.truth row (rows ▸ listed)
    exact ⟨by rw [last, currentRevision, same]; exact status, by rw [last]; exact error⟩

def supersede (server : String) (row : HistoryRow) : HistoryRow :=
  if row.serverId == server && row.status == .pending then { row with status := .superseded } else row

def changeRow (r : ChangeRequest) (ids : ChangeIds) : HistoryRow :=
  ⟨ids.history, r.server, ids.revision, r.ip, r.action, r.username, r.now, .pending, []⟩

/-- The columns that no statement updates. -/
def HistoryRow.entry (row : HistoryRow) : HistoryRow := { row with status := .pending, error := [] }

theorem commitPolicy_rows (db : Fleet) (r : ChangeRequest) (ids : ChangeIds) (p : FirewallPolicy) :
    (commitPolicy db r ids p).firewallHistory = db.firewallHistory.map (supersede r.server) ++ [changeRow r ids] := rfl

theorem mem_commitPolicy {db : Fleet} {r : ChangeRequest} {ids : ChangeIds} {p : FirewallPolicy} {row : HistoryRow} :
    row ∈ (commitPolicy db r ids p).firewallHistory ↔
      (∃ old ∈ db.firewallHistory, supersede r.server old = row) ∨ row = changeRow r ids := by
  rw [commitPolicy_rows, List.mem_append, List.mem_map, List.mem_singleton]

section
variable {server : String} {row : HistoryRow}

theorem supersede_entry (server : String) (row : HistoryRow) : (supersede server row).entry = row.entry := by
  unfold supersede
  split <;> rfl

theorem supersede_error (server : String) (row : HistoryRow) : (supersede server row).error = row.error := by
  unfold supersede
  split <;> rfl

theorem supersede_own (own : row.serverId = server) :
    (supersede server row).status = if row.status = .pending then .superseded else row.status := by
  simp only [supersede, own, beq_self_eq_true, Bool.true_and, beq_iff_eq]
  split <;> rfl

theorem supersede_settled (settled : row.serverId = server → row.status ≠ .pending) : supersede server row = row := by
  simp only [supersede, Bool.and_eq_true, beq_iff_eq]
  exact if_neg fun both => settled both.1 both.2

theorem entry_columns {first second : HistoryRow} (same : first.entry = second.entry) :
    first.id = second.id ∧ first.serverId = second.serverId ∧ first.revision = second.revision := by
  simp only [HistoryRow.entry, HistoryRow.mk.injEq] at same
  exact ⟨same.1, same.2.1, same.2.2.1⟩

end

theorem unique_entries {κ : Type} {key : HistoryRow → κ} {change : HistoryRow → HistoryRow} {rows : List HistoryRow}
    (keeps : ∀ row, key (change row) = key row) (unique : Rows.Unique key rows) : Rows.Unique key (rows.map change) := by
  have same : (rows.map change).map key = rows.map key := by
    rw [List.map_map]
    exact List.map_congr_left fun row _ => keeps row
  rwa [Rows.Unique, same]

theorem statusAfter_replaced {report : Option Report} (current : Bool) :
    statusAfter report false = if statusAfter report current = .pending then .superseded else statusAfter report current := by
  cases report with
  | none => cases current <;> rfl
  | some report =>
    obtain ⟨accepted, error⟩ := report
    cases accepted <;> rfl

theorem HistoryValid.changed {r : ChangeRequest} {ids : ChangeIds} {p : FirewallPolicy}
    (valid : HistoryValid hash history t.before.db.toFleet) (named : p.revision = ids.revision)
    (new : Rows.has HistoryRow.id ids.history t.before.db.firewallHistory = false) (fresh : ids.revision ∉ revisionsDrawn history)
    (drawn : ids.revision ∈ revisionsDrawn (t :: history))
    (unreported : ∀ server revision, reportOf hash server revision t.before.db t.action = none) :
    HistoryValid hash (t :: history) (commitPolicy t.before.db.toFleet r ids p) := by
  have last : ∀ server revision, lastReport hash server revision (t :: history) = lastReport hash server revision history :=
    fun server revision => by rw [lastReport_cons, unreported]; rfl
  obtain ⟨stored, found, policy, revised, -⟩ := @commitPolicy_self t.before.db.toFleet r ids p
  have current : currentRevision (commitPolicy t.before.db.toFleet r ids p) r.server = some ids.revision := by
    rw [currentRevision, found, Option.map_some, revised]
  have apart : ∀ server, server ≠ r.server →
      currentRevision (commitPolicy t.before.db.toFleet r ids p) server = currentRevision t.before.db.toFleet server :=
    fun server other => by rw [currentRevision, commitPolicy_other ids p (Ne.symm other), currentRevision]
  have columns : ∀ row, (supersede r.server row).id = row.id ∧ (supersede r.server row).serverId = row.serverId ∧
      (supersede r.server row).revision = row.revision := fun row => entry_columns (supersede_entry r.server row)
  constructor
  · refine (unique_entries (fun row => (columns row).1) valid.ids).append fun row listed => ?_
    obtain ⟨old, there, rfl⟩ := List.mem_map.mp listed
    exact (columns old).1 ▸ Rows.has_false_iff.mp new old there
  · refine (unique_entries (fun row => (columns row).2.2) valid.distinct).append fun row listed same => fresh ?_
    obtain ⟨old, there, rfl⟩ := List.mem_map.mp listed
    have drawn := valid.rows old there
    rwa [← (columns old).2.2, same] at drawn
  · intro server row listed
    by_cases own : server = r.server
    · subst own
      obtain rfl := Option.some.inj (found.symm.trans listed)
      rw [policy, named, revised]
    · rw [commitPolicy_other ids p (Ne.symm own)] at listed
      exact valid.named server row listed
  · intro row listed
    by_cases own : row.serverId = r.server
    · rw [own, current]
      exact Option.some_ne_none _
    · rw [apart _ own]
      rcases mem_commitPolicy.mp listed with ⟨old, there, rfl⟩ | rfl
      · rw [(columns old).2.1]
        exact valid.recorded old there
      · exact absurd rfl own
  · intro row listed
    rcases mem_commitPolicy.mp listed with ⟨old, there, rfl⟩ | rfl
    · rw [(columns old).2.2]
      exact mem_revisionsDrawn (valid.rows old there)
    · exact drawn
  · intro server revision same
    by_cases own : server = r.server
    · rw [own, current] at same
      exact Option.some.inj same ▸ drawn
    · rw [apart _ own] at same
      exact mem_revisionsDrawn (valid.policies server revision same)
  · intro server revision reported
    rw [last] at reported
    exact mem_revisionsDrawn (valid.reports server revision reported)
  · intro row listed
    rcases mem_commitPolicy.mp listed with ⟨old, there, rfl⟩ | rfl
    · obtain ⟨status, error⟩ := valid.truth old there
      refine ⟨?_, by rw [supersede_error, last, (columns old).2.1, (columns old).2.2]; exact error⟩
      rw [last, (columns old).2.1, (columns old).2.2]
      by_cases own : old.serverId = r.server
      · have replaced : decide (currentRevision (commitPolicy t.before.db.toFleet r ids p) old.serverId = some old.revision) =
            false := by
          rw [own, current, decide_eq_false_iff_not]
          exact fun same => fresh (Option.some.inj same ▸ valid.rows old there)
        rw [replaced, supersede_own own, status]
        exact (statusAfter_replaced _).symm
      · rw [apart _ own, supersede_settled fun same => absurd same own]
        exact status
    · have none_yet : lastReport hash r.server ids.revision history = none := by
        by_contra reported
        exact fresh (valid.reports _ _ reported)
      refine ⟨?_, by rw [last]; exact (congrArg (fun report => (report.map Report.error).getD []) none_yet).symm⟩
      rw [last]
      simp only [changeRow, none_yet, current, statusAfter, decide_true, if_true]

def judged (server : String) (p : FirewallPolicy) (b : Batch) (row : HistoryRow) : HistoryRow :=
  match b.firewallResult with
  | some result =>
    if result.revision == p.revision && (row.serverId == server && row.revision == p.revision) then
      { row with status := if result.error == [] && isCompatible p b then .succeeded else .failed, error := result.error }
    else row
  | none => row

theorem ingestAs_judged (server : String) (db : Fleet) (b : Batch) (now : Int) (fresh : String) :
    (ingestAs server db b now fresh).2.firewallHistory =
      db.firewallHistory.map (judged server (readPolicy db server fresh) b) := by
  obtain ⟨start, policies, before, -, rows, -⟩ := ingestAs_policies server db b now fresh
  have read : readPolicy start server fresh = readPolicy db server fresh := by simp only [readPolicy, policies]
  rw [rows]
  simp only [ingestFirewall, read]
  cases reported : b.firewallResult with
  | none =>
    have kept : db.firewallHistory.map (judged server (readPolicy db server fresh) b) = db.firewallHistory.map id :=
      List.map_congr_left fun row _ => by simp [judged, reported]
    rw [kept, List.map_id]
    exact before
  | some result =>
    simp only [reportFirewall]
    split
    next current =>
      simp only [Rows.update, before]
      refine List.map_congr_left fun row _ => ?_
      simp [judged, reported, current]
    next other =>
      have kept : db.firewallHistory.map (judged server (readPolicy db server fresh) b) = db.firewallHistory.map id :=
        List.map_congr_left fun row _ => by simp [judged, reported, other]
      rw [kept, List.map_id]
      exact before

theorem judged_entry (server : String) (p : FirewallPolicy) (b : Batch) (row : HistoryRow) :
    (judged server p b row).entry = row.entry := by
  unfold judged
  split
  · split <;> rfl
  · rfl

/-- A heartbeat does to a row of a server with a policy what its report says. -/
theorem judged_report {db : Db} {act : Served} {token : String} {b : Batch} {fresh server : String} {row : HistoryRow}
    (request : act.request = .ingest token b fresh) (known : authenticate db.toFleet (hash token) = some server)
    (answered : (ingest hash db.toFleet token b act.now fresh act.stored).1.isOk = true)
    (current : row.serverId = server → currentRevision db.toFleet server = some (readPolicy db.toFleet server fresh).revision) :
    judged server (readPolicy db.toFleet server fresh) b row =
      (reportOf hash row.serverId row.revision db act).elim row fun report =>
        { row with status := if report.accepted then .succeeded else .failed, error := report.error } := by
  simp only [judged, reportOf, request]
  cases b.firewallResult with
  | none => rfl
  | some result =>
    simp only [Option.bind_some]
    by_cases met : authenticate db.toFleet (hash token) = some row.serverId ∧
        (ingest hash db.toFleet token b act.now fresh act.stored).1.isOk = true ∧ result.revision = row.revision ∧
        currentRevision db.toFleet row.serverId = some row.revision
    · obtain rfl : server = row.serverId := Option.some.inj (known.symm.trans met.1)
      have same : row.revision = (readPolicy db.toFleet row.serverId fresh).revision :=
        Option.some.inj (met.2.2.2.symm.trans (current rfl))
      have judges : (result.revision == (readPolicy db.toFleet row.serverId fresh).revision && (row.serverId == row.serverId &&
          row.revision == (readPolicy db.toFleet row.serverId fresh).revision)) = true := by simp [← same, met.2.2.1]
      rw [if_pos met, if_pos judges]
      rfl
    · rw [if_neg met, if_neg]
      · rfl
      · simp only [Bool.and_eq_true, beq_iff_eq]
        rintro ⟨reported, own, same⟩
        exact met ⟨own ▸ known, answered, reported.trans same.symm, by rw [same]; exact own ▸ current own⟩

/-- A server that has a policy keeps its revision. -/
theorem ingestAs_current {db : Fleet} {server other : String} {b : Batch} {now : Int} {fresh : String}
    (stored : currentRevision db other ≠ none) :
    currentRevision (ingestAs server db b now fresh).2 other = currentRevision db other := by
  obtain ⟨apart, row, found, -, revised, -⟩ := ingestAs_row db server b now fresh other
  by_cases own : other = server
  · subst own
    obtain ⟨revision, same⟩ := Option.ne_none_iff_exists'.mp stored
    rw [currentRevision, found, Option.map_some, revised, same]
    simp only [currentRevision] at same
    rw [same]
    rfl
  · rw [currentRevision, apart own, currentRevision]

theorem HistoryValid.revision {db : Fleet} (valid : HistoryValid hash history db) (server fresh : String) :
    (readPolicy db server fresh).revision = (currentRevision db server).getD fresh := by
  rw [readPolicy_row, currentRevision]
  cases before : policyRow db server with
  | none => rfl
  | some row => exact valid.named server row before

theorem HistoryValid.reported {db : Db} {act : Served} {token : String} {b : Batch} {fresh server : String} {row : HistoryRow}
    (valid : HistoryValid hash history db.toFleet) (listed : row ∈ db.firewallHistory)
    (request : act.request = .ingest token b fresh) (known : authenticate db.toFleet (hash token) = some server)
    (answered : (ingest hash db.toFleet token b act.now fresh act.stored).1.isOk = true) :
    judged server (readPolicy db.toFleet server fresh) b row =
      (reportOf hash row.serverId row.revision db act).elim row fun report =>
        { row with status := if report.accepted then .succeeded else .failed, error := report.error } := by
  refine judged_report request known answered fun own => ?_
  obtain ⟨revision, same⟩ := Option.ne_none_iff_exists'.mp (valid.recorded row listed)
  rw [own] at same
  rw [valid.revision, same]
  rfl

theorem HistoryValid.ingested {token : String} {b : Batch} {fresh server : String}
    (valid : HistoryValid hash history t.before.db.toFleet) (request : t.action.request = .ingest token b fresh)
    (known : authenticate t.before.db.toFleet (hash token) = some server)
    (answered : (ingest hash t.before.db.toFleet token b t.action.now fresh t.action.stored).1.isOk = true) :
    HistoryValid hash (t :: history) (ingestAs server t.before.db.toFleet b.redacted t.action.now fresh).2 := by
  have drawn : fresh ∈ revisionsDrawn (t :: history) := by
    simp [revisionsDrawn, request, Request.draw]
  obtain ⟨-, stored, found, policy, revised, -⟩ := ingestAs_row t.before.db.toFleet server b.redacted t.action.now fresh server
  have apart : ∀ other, other ≠ server → policyRow (ingestAs server t.before.db.toFleet b.redacted t.action.now fresh).2 other =
      policyRow t.before.db.toFleet other :=
    fun other => (ingestAs_row t.before.db.toFleet server b.redacted t.action.now fresh other).1
  have named := valid.revision server fresh
  have current : currentRevision (ingestAs server t.before.db.toFleet b.redacted t.action.now fresh).2 server =
      some ((currentRevision t.before.db.toFleet server).getD fresh) := by
    rw [currentRevision, found, Option.map_some, revised]
    rfl
  have rows := ingestAs_judged server t.before.db.toFleet b.redacted t.action.now fresh
  have columns : ∀ row, (judged server (readPolicy t.before.db.toFleet server fresh) b.redacted row).id = row.id ∧
      (judged server (readPolicy t.before.db.toFleet server fresh) b.redacted row).serverId = row.serverId ∧
      (judged server (readPolicy t.before.db.toFleet server fresh) b.redacted row).revision = row.revision :=
    fun row => entry_columns (judged_entry _ _ _ row)
  constructor
  · rw [rows]
    exact unique_entries (fun row => (columns row).1) valid.ids
  · rw [rows]
    exact unique_entries (fun row => (columns row).2.2) valid.distinct
  · intro other row listed
    by_cases own : other = server
    · subst own
      obtain rfl := Option.some.inj (found.symm.trans listed)
      rw [policy, named, revised]
      rfl
    · exact valid.named other row (apart other own ▸ listed)
  · intro row listed
    obtain ⟨old, there, rfl⟩ := List.mem_map.mp (rows ▸ listed)
    rw [(columns old).2.1, ingestAs_current (valid.recorded old there)]
    exact valid.recorded old there
  · intro row listed
    obtain ⟨old, there, rfl⟩ := List.mem_map.mp (rows ▸ listed)
    rw [(columns old).2.2]
    exact mem_revisionsDrawn (valid.rows old there)
  · intro other revision same
    by_cases own : other = server
    · subst own
      rw [current] at same
      cases before : currentRevision t.before.db.toFleet other with
      | none =>
        rw [before] at same
        exact Option.some.inj same ▸ drawn
      | some first =>
        rw [before] at same
        exact Option.some.inj same ▸ mem_revisionsDrawn (valid.policies other first before)
    · rw [currentRevision, apart other own] at same
      exact mem_revisionsDrawn (valid.policies other revision same)
  · intro other revision reported
    refine mem_revisionsDrawn ?_
    rw [lastReport_cons] at reported
    by_cases before : currentRevision t.before.db.toFleet other = some revision
    · exact valid.policies other revision before
    · have unreported : reportOf hash other revision t.before.db t.action = none := by
        simp only [reportOf, request]
        exact Option.bind_eq_none_iff.mpr fun result _ => if_neg fun holds => before holds.2.2.2
      rw [unreported] at reported
      exact valid.reports other revision reported
  · intro row listed
    obtain ⟨old, there, rfl⟩ := List.mem_map.mp (rows ▸ listed)
    obtain ⟨status, error⟩ := valid.truth old there
    have report := valid.reported there request known answered
    have after : judged server (readPolicy t.before.db.toFleet server fresh) b.redacted old =
        judged server (readPolicy t.before.db.toFleet server fresh) b old := rfl
    refine ⟨?_, ?_⟩
    · rw [(columns old).2.1, (columns old).2.2, ingestAs_current (valid.recorded old there), lastReport_cons, after, report]
      cases reportOf hash old.serverId old.revision t.before.db t.action with
      | none => exact status
      | some report => rfl
    · rw [(columns old).2.1, (columns old).2.2, lastReport_cons, after, report]
      cases reportOf hash old.serverId old.revision t.before.db t.action with
      | none => exact error
      | some report => rfl

def AcceptsChange (t : Transition ServerState Served) (server : String) (ids : ChangeIds) : Prop :=
  ∃ username asked, t.action.request = .requestFirewall server username ids asked ∧
    (requestFirewall t.before.db.toFleet server username t.action.now ids asked t.action.stored).1 = .ok ids.revision

inductive FirewallEffect (hash : String → String) (t : Transition ServerState Served) : Prop
  | quiet (policies : t.after.db.firewallPolicies = t.before.db.firewallPolicies)
      (rows : t.after.db.firewallHistory = t.before.db.firewallHistory)
      (unreported : ∀ server revision, reportOf hash server revision t.before.db t.action = none)
      (unaccepted : ∀ server ids, ¬AcceptsChange t server ids)
  | changed {ids : ChangeIds} {r : ChangeRequest} {p : FirewallPolicy} (accepted : AcceptsChange t r.server ids)
      (named : p.revision = ids.revision)
      (new : Rows.has HistoryRow.id ids.history t.before.db.firewallHistory = false)
      (stored : t.after.db.toFleet = commitPolicy t.before.db.toFleet r ids p)
  | ingested {token fresh server : String} {b : Batch} (request : t.action.request = .ingest token b fresh)
      (known : authenticate t.before.db.toFleet (hash token) = some server)
      (answered : (ingest hash t.before.db.toFleet token b t.action.now fresh t.action.stored).1.isOk = true)
      (stored : t.after.db.toFleet = (ingestAs server t.before.db.toFleet b.redacted t.action.now fresh).2)

/-- Only heartbeats and changes of a policy touch the two tables. -/
theorem ServeEffect.firewall_kept {db : Db} {now : Int} {request : Request} {fleet : Fleet}
    (effect : ServeEffect hash db now request fleet) (unsent : ∀ token b fresh, request ≠ .ingest token b fresh)
    (unasked : ∀ server username ids asked, request ≠ .requestFirewall server username ids asked) :
    fleet.firewallPolicies = db.firewallPolicies ∧ fleet.firewallHistory = db.firewallHistory := by
  cases effect with
  | quiet => exact ⟨rfl, rfl⟩
  | ingested => exact absurd rfl (unsent _ _ _)
  | requested done =>
    obtain ⟨_, stored⟩ := done.stored
    rw [stored]
    exact ⟨rfl, rfl⟩
  | changed => exact absurd rfl (unasked _ _ _ _)
  | created => exact ⟨rfl, rfl⟩
  | renamed => exact ⟨rfl, rfl⟩
  | rotated done => exact done.frame.2.2.2

theorem firewall_effect (run : Run (serverSystem hash) history t.before)
    (moved : (serverSystem hash).step t.before t.action t.after) : FirewallEffect hash t := by
  obtain ⟨before, ⟨request, now, stored, time⟩, after⟩ := t
  have served : after.db = before.db.serve hash now stored request := congrArg ServerState.db moved.2.2
  have effect := serve_effect hash before.db now stored request
  rw [← served] at effect
  have apart : (∀ token b fresh, request ≠ .ingest token b fresh) →
      (∀ server username ids asked, request ≠ .requestFirewall server username ids asked) →
      FirewallEffect hash ⟨before, ⟨request, now, stored, time⟩, after⟩ := fun other unasked =>
    .quiet (effect.firewall_kept other unasked).1 (effect.firewall_kept other unasked).2
      (fun _ _ => reportOf_none fun token b fresh same => absurd same (other token b fresh))
      fun server ids ⟨username, asked, same, _⟩ => unasked server username ids asked same
  cases request with
  | ingest token b fresh =>
    simp only [Db.serve] at served
    rcases ingest_cases hash before.db.toFleet token b now fresh stored with ⟨problem, refused⟩ | ⟨server, known, answer⟩
    · rw [refused] at served
      refine .quiet (by rw [served]) (by rw [served]) (fun _ _ => reportOf_none ?_) ?_
      · rintro _ _ _ ⟨⟩ -
        simp only [refused]
        rfl
      · rintro server ids ⟨username, asked, same, -⟩
        cases same
    · rw [answer] at served
      exact .ingested rfl known (by simp only [answer]; rfl) (by rw [served])
  | requestFirewall server username ids asked =>
    simp only [Db.serve] at served
    rcases (@run_follows hash server before history run).request username now ids asked stored with
      ⟨-, problem, answer⟩ | ⟨next, r, p, accepted, rfl, -, -, named, answer⟩
    · rw [answer] at served
      refine .quiet (by rw [served]) (by rw [served]) (fun _ _ => reportOf_none fun _ _ _ same => by cases same) ?_
      rintro _ _ ⟨_, _, ⟨⟩, accepted⟩
      rw [answer] at accepted
      cases accepted
    · rw [answer] at served
      have written := Guard.edited_stored accepted
      simp only [isWritable, Bool.and_eq_true, Bool.not_eq_true'] at written
      exact .changed ⟨username, asked, rfl, by rw [answer]⟩ named written.2 (by rw [served])
  | _ => exact apart (fun _ _ _ => Request.noConfusion) fun _ _ _ _ => Request.noConfusion

def DrawsNew (t : Transition ServerState Served) (history : List (Transition ServerState Served)) : Prop :=
  ∀ revision, t.action.request.draw = some revision → revision ∉ revisionsDrawn history

theorem HistoryValid.step (valid : HistoryValid hash history t.before.db.toFleet) (effect : FirewallEffect hash t)
    (new : DrawsNew t history) : HistoryValid hash (t :: history) t.after.db.toFleet := by
  cases effect with
  | quiet policies rows unreported => exact valid.quiet policies rows unreported
  | changed accepted named fresh stored =>
    obtain ⟨username, asked, request, -⟩ := accepted
    rw [stored]
    refine valid.changed named fresh (new _ (by rw [request]; rfl)) (by simp [revisionsDrawn, request, Request.draw]) ?_
    exact fun _ _ => reportOf_none fun _ _ _ same => by rw [request] at same; cases same
  | ingested request known answered stored =>
    rw [stored]
    exact valid.ingested request known answered

/-- A row that is not current stays as it is, and is never current again. -/
theorem HistoryValid.frozen (valid : HistoryValid hash history t.before.db.toFleet) (effect : FirewallEffect hash t)
    (new : DrawsNew t history) {row : HistoryRow} (listed : row ∈ t.before.db.firewallHistory)
    (past : currentRevision t.before.db.toFleet row.serverId ≠ some row.revision) :
    row ∈ t.after.db.firewallHistory ∧ currentRevision t.after.db.toFleet row.serverId ≠ some row.revision := by
  cases effect with
  | quiet policies rows => exact ⟨rows ▸ listed, by rwa [currentRevision, policyRow, policies]⟩
  | @changed ids r p accepted named fresh stored =>
    obtain ⟨username, asked, request, -⟩ := accepted
    have settled : row.status ≠ .pending := by
      rw [(valid.truth row listed).status, decide_eq_false past]
      cases lastReport hash row.serverId row.revision history with
      | none => exact Status.noConfusion
      | some report =>
        simp only [statusAfter]
        split <;> exact Status.noConfusion
    rw [stored]
    refine ⟨mem_commitPolicy.mpr (Or.inl ⟨row, listed, supersede_settled fun _ => settled⟩), ?_⟩
    by_cases own : r.server = row.serverId
    · obtain ⟨row', found, -, revised, -⟩ := @commitPolicy_self t.before.db.toFleet r ids p
      rw [currentRevision, ← own, found, Option.map_some, revised]
      intro same
      exact new _ (by rw [request]; rfl) (Option.some.inj same ▸ valid.rows row listed)
    · rw [currentRevision, commitPolicy_other ids p own]
      exact past
  | @ingested token fresh server b request known answered stored =>
    have recorded := valid.recorded row listed
    have unreported : reportOf hash row.serverId row.revision t.before.db t.action = none := by
      simp only [reportOf, request]
      exact Option.bind_eq_none_iff.mpr fun result _ => if_neg fun holds => past holds.2.2.2
    have report := valid.reported listed request known answered
    rw [unreported] at report
    rw [stored]
    refine ⟨?_, by rw [ingestAs_current recorded]; exact past⟩
    rw [ingestAs_judged]
    exact List.mem_map.mpr ⟨row, listed, report⟩

/-- What the history of every run says. -/
structure HistoryTruth (hash : String → String) (history : List (Transition ServerState Served)) (s : ServerState) : Prop where
  added : ∀ t ∈ history, ∀ server ids, AcceptsChange t server ids → ∃ row : HistoryRow, row.id = ids.history ∧ row.serverId = server ∧
    row.revision = ids.revision ∧
    t.after.db.firewallHistory.map HistoryRow.entry = t.before.db.firewallHistory.map HistoryRow.entry ++ [row]
  unadded : ∀ t ∈ history, (∀ server ids, ¬AcceptsChange t server ids) →
    t.after.db.firewallHistory.map HistoryRow.entry = t.before.db.firewallHistory.map HistoryRow.entry
  unique : Rows.Unique HistoryRow.id s.db.firewallHistory
  one_pending : ∀ first ∈ s.db.firewallHistory, ∀ second ∈ s.db.firewallHistory, first.status = .pending →
    second.status = .pending → first.serverId = second.serverId → first = second
  pending : ∀ row ∈ s.db.firewallHistory, row.status = .pending → currentRevision s.db.toFleet row.serverId = some row.revision
  frozen : ∀ later t older, history = later ++ t :: older → ∀ row ∈ t.after.db.firewallHistory,
    currentRevision t.after.db.toFleet row.serverId ≠ some row.revision →
    row ∈ s.db.firewallHistory ∧ currentRevision s.db.toFleet row.serverId ≠ some row.revision
  superseded : ∀ row ∈ s.db.firewallHistory, currentRevision s.db.toFleet row.serverId ≠ some row.revision →
    (row.status = .superseded ↔ lastReport hash row.serverId row.revision history = none)
  truth : ∀ row ∈ s.db.firewallHistory, RowTruth hash history s.db.toFleet row

theorem FirewallEffect.entries (effect : FirewallEffect hash t) :
    (∀ server ids, AcceptsChange t server ids → ∃ row : HistoryRow, row.id = ids.history ∧ row.serverId = server ∧
      row.revision = ids.revision ∧
      t.after.db.firewallHistory.map HistoryRow.entry = t.before.db.firewallHistory.map HistoryRow.entry ++ [row]) ∧
    ((∀ server ids, ¬AcceptsChange t server ids) →
      t.after.db.firewallHistory.map HistoryRow.entry = t.before.db.firewallHistory.map HistoryRow.entry) := by
  have kept : ∀ {change : HistoryRow → HistoryRow}, (∀ row, (change row).entry = row.entry) →
      ∀ rows : List HistoryRow, (rows.map change).map HistoryRow.entry = rows.map HistoryRow.entry := by
    intro change same rows
    rw [List.map_map]
    exact List.map_congr_left fun row _ => same row
  cases effect with
  | quiet policies rows unreported unaccepted =>
    exact ⟨fun server ids accepted => absurd accepted (unaccepted server ids), fun _ => by rw [rows]⟩
  | @changed ids r p accepted named new stored =>
    refine ⟨?_, fun refused => absurd accepted (refused _ _)⟩
    obtain ⟨username, asked, request, -⟩ := accepted
    rintro server other ⟨_, _, same, -⟩
    rw [request] at same
    cases same
    refine ⟨changeRow r ids, rfl, rfl, rfl, ?_⟩
    rw [stored, commitPolicy_rows, List.map_append, kept (supersede_entry r.server)]
    rfl
  | ingested request known answered stored =>
    refine ⟨?_, fun _ => by rw [stored, ingestAs_judged, kept (judged_entry _ _ _)]⟩
    rintro server ids ⟨_, _, same, -⟩
    rw [request] at same
    cases same

variable {s : ServerState}

theorem revisionsDrawn_cons (anew : (revisionsDrawn (t :: history)).Nodup) : DrawsNew t history ∧ (revisionsDrawn history).Nodup := by
  unfold revisionsDrawn at anew
  rw [List.filterMap_cons] at anew
  split at anew
  next none_drawn =>
    refine ⟨fun revision drawn => ?_, anew⟩
    rw [none_drawn] at drawn
    cases drawn
  next first drawn =>
    obtain ⟨new, others⟩ := List.nodup_cons.mp anew
    refine ⟨fun revision same => ?_, others⟩
    rw [drawn] at same
    cases same
    exact new

theorem history_valid (run : Run (serverSystem hash) history s) (anew : (revisionsDrawn history).Nodup) :
    HistoryValid hash history s.db.toFleet := by
  induction run with
  | start empty =>
    rw [show _ = emptyFleet from empty]
    constructor <;> simp [emptyFleet, policyRow, currentRevision, lastReport]
  | @next history before act after earlier moved ih =>
    obtain ⟨new, older⟩ := revisionsDrawn_cons anew
    exact (ih older).step (@firewall_effect hash history ⟨before, act, after⟩ earlier moved) new

theorem row_frozen {later older : List (Transition ServerState Served)}
    (run : Run (serverSystem hash) (later ++ t :: older) s) (anew : (revisionsDrawn (later ++ t :: older)).Nodup) {row : HistoryRow}
    (listed : row ∈ t.after.db.firewallHistory)
    (past : currentRevision t.after.db.toFleet row.serverId ≠ some row.revision) :
    row ∈ s.db.firewallHistory ∧ currentRevision s.db.toFleet row.serverId ≠ some row.revision := by
  induction later generalizing s with
  | nil =>
    obtain rfl := run.newest.1
    exact ⟨listed, past⟩
  | cons last later ih =>
    obtain ⟨rfl, before, moved⟩ := run.newest
    obtain ⟨new, earlier⟩ := revisionsDrawn_cons anew
    obtain ⟨there, still⟩ := ih before earlier
    exact (history_valid before earlier).frozen (firewall_effect before moved) new there still

theorem firewall_history_truth (run : Run (serverSystem hash) history s) (anew : (revisionsDrawn history).Nodup) :
    HistoryTruth hash history s := by
  have valid := history_valid run anew
  have pending : ∀ row ∈ s.db.firewallHistory, row.status = .pending →
      currentRevision s.db.toFleet row.serverId = some row.revision := by
    intro row listed waits
    by_contra past
    rw [(valid.truth row listed).status, decide_eq_false past] at waits
    cases reported : lastReport hash row.serverId row.revision history with
    | none =>
      rw [reported] at waits
      cases waits
    | some report =>
      obtain ⟨accepted, error⟩ := report
      rw [reported] at waits
      cases accepted <;> cases waits
  refine ⟨?_, ?_, valid.ids, ?_, pending, ?_, ?_, valid.truth⟩
  · intro t member
    obtain ⟨older, before, moved⟩ := run.of_mem member
    exact (firewall_effect before moved).entries.1
  · intro t member
    obtain ⟨older, before, moved⟩ := run.of_mem member
    exact (firewall_effect before moved).entries.2
  · intro first one second two waits also same
    have current := pending first one waits
    rw [same, pending second two also] at current
    exact valid.distinct.eq one two (Option.some.inj current).symm
  · rintro later t older rfl row listed past
    exact row_frozen run anew listed past
  · intro row listed past
    rw [(valid.truth row listed).status, decide_eq_false past]
    cases lastReport hash row.serverId row.revision history with
    | none => exact ⟨fun _ => rfl, fun _ => rfl⟩
    | some report =>
      obtain ⟨accepted, error⟩ := report
      cases accepted <;> exact ⟨Status.noConfusion, fun same => absurd same (Option.some_ne_none _)⟩

end

/-- A ban is loaded by the agent; the next one is replaced before it hears of it. -/
def loadedBatch : Batch where
  canFirewall := true
  canAllowlist := true
  firewallResult := some ⟨"p1", []⟩
  canTerminate := false
  terminationResults := []
  events := []
  health := Bytes.utf8 "ok"
  backlog := 0
  dropped := 0
  activeSessions := []

def bannedStart : ServerState := ⟨newStore, 0⟩

def bannedRegistered : ServerState :=
  bannedStart.serve id (.createServer ⟨"root", "super_admin"⟩ "web" "s1" "t1") 1000

def bannedFirst : ServerState :=
  bannedRegistered.serve id (.requestFirewall "s1" "root" ⟨"p0", "p1", "h1"⟩ (.ban "192.0.2.1" false)) 2000

def bannedLoaded : ServerState := bannedFirst.serve id (.ingest "t1" loadedBatch "p2") 3000

def bannedSecond : ServerState :=
  bannedLoaded.serve id (.requestFirewall "s1" "root" ⟨"p3", "p4", "h2"⟩ (.ban "192.0.2.2" false)) 4000

def bannedThird : ServerState :=
  bannedSecond.serve id (.requestFirewall "s1" "root" ⟨"p5", "p6", "h3"⟩ (.unban "192.0.2.1")) 5000

def bannedHistory : List (Transition ServerState Served) :=
  [⟨bannedSecond, ⟨.requestFirewall "s1" "root" ⟨"p5", "p6", "h3"⟩ (.unban "192.0.2.1"), 5000, true, 5000⟩, bannedThird⟩,
    ⟨bannedLoaded, ⟨.requestFirewall "s1" "root" ⟨"p3", "p4", "h2"⟩ (.ban "192.0.2.2" false), 4000, true, 4000⟩, bannedSecond⟩,
    ⟨bannedFirst, ⟨.ingest "t1" loadedBatch "p2", 3000, true, 3000⟩, bannedLoaded⟩,
    ⟨bannedRegistered, ⟨.requestFirewall "s1" "root" ⟨"p0", "p1", "h1"⟩ (.ban "192.0.2.1" false), 2000, true, 2000⟩, bannedFirst⟩,
    ⟨bannedStart, ⟨.createServer ⟨"root", "super_admin"⟩ "web" "s1" "t1", 1000, true, 1000⟩, bannedRegistered⟩]

theorem firewall_history_truth_bans : HistoryTruth id bannedHistory bannedThird ∧
    bannedThird.db.firewallHistory.map HistoryRow.status = [.succeeded, .superseded, .pending] := by
  have run : Run (serverSystem id) bannedHistory bannedThird :=
    .next (.next (.next (.next (.next (.start rfl) (serve_step (by decide))) (serve_step (by decide)))
      (serve_step (by decide))) (serve_step (by decide))) (serve_step (by decide))
  exact ⟨firewall_history_truth run (by decide), rfl⟩

end SshLogger
