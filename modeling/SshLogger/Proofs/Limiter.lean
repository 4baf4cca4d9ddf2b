import SshLogger.Proofs.Frame
import SshLogger.Proofs.Passwords

/-! The limit on failed logins of one address. The failures are counted before
the password is compared and recorded after, so the requests in between pass the
limit together; it holds while they and the recorded failures stay below ten. -/

namespace SshLogger
open Library Library.Transaction Library.History

variable {app : App} {ip : String} {reset : Int} {w next : Administration} {act : AdminAct}

def rowsOf (db : Accounts) (ip : String) : List Attempts := db.loginAttempts.filter fun row => row.key == ip

def failuresOf (db : Accounts) (ip : String) (now : Int) : Nat :=
  (((rowsOf db ip).find? fun row => row.reset > now).map Attempts.count).getD 0

/-- The failures recorded in the window with this end. -/
def recorded (db : Accounts) (ip : String) (reset : Int) : Nat :=
  (((rowsOf db ip).find? fun row => row.reset == reset).map Attempts.count).getD 0

/-- The requests of an address that passed the limit and have not recorded how they ended. -/
def inFlight (w : Administration) (ip : String) : Nat := (w.admitted.countP fun r => r.ip == ip) + w.failures.count ip

def fails (app : App) (ip : String) (t : Transition Administration AdminAct) : Bool :=
  match t.action with
  | .verifyLogin r => r.ip == ip && (verifyLogin app t.before.db r).isNone
  | _ => false

/-- These steps lie in one window of the address, from before its first failure
is recorded: no other window begins, nothing clears it, and it is not over. -/
structure Window (ip : String) (reset : Int) (segment : List (Transition Administration AdminAct)) (w : Administration) :
    Prop where
  fresh : ∀ row ∈ rowsOf (origin w segment).db ip, row.reset ≠ reset
  row : ∀ t ∈ segment, ∀ row ∈ rowsOf t.after.db ip, row.reset = reset
  kept : ∀ t ∈ segment, (∃ row ∈ rowsOf t.before.db ip, row.reset = reset) → rowsOf t.after.db ip ≠ []
  clock : ∀ t ∈ segment, ∀ site r now, t.action = .admitLogin site r now → r.ip = ip → now < reset

/-- The comparisons that failed in the window, with those waiting to be recorded when it began. -/
def failedIn (app : App) (ip : String) (segment : List (Transition Administration AdminAct)) (w : Administration) : Nat :=
  (origin w segment).failures.count ip + segment.countP (fails app ip)

inductive Counts (app : App) (ip : String) (w next : Administration) : AdminAct → Prop
  | passed {site r now} : r.ip = ip → admitLogin site w.db r now = .ok () → next.db = w.db →
      (next.admitted.countP fun r => r.ip == ip) = (w.admitted.countP fun r => r.ip == ip) + 1 →
      next.failures = w.failures → Counts app ip w next (.admitLogin site r now)
  | failed {r} : fails app ip ⟨w, .verifyLogin r, next⟩ = true → next.db = w.db →
      (next.admitted.countP fun r => r.ip == ip) + 1 = (w.admitted.countP fun r => r.ip == ip) →
      next.failures.count ip = w.failures.count ip + 1 → Counts app ip w next (.verifyLogin r)
  | recorded {now stored} : next.admitted = w.admitted → next.failures.count ip + 1 = w.failures.count ip →
      (stored = true → next.db.loginAttempts = countAttempt ip now w.db.loginAttempts) →
      Counts app ip w next (.failLogin ip now stored)
  | other (act : AdminAct) : fails app ip ⟨w, act, next⟩ = false →
      (next.admitted.countP fun r => r.ip == ip) ≤ (w.admitted.countP fun r => r.ip == ip) →
      next.failures.count ip = w.failures.count ip → Thinned (rowsOf w.db ip) (rowsOf next.db ip) →
      Counts app ip w next act

/-- Another address's failure does not touch the counters of this one. -/
theorem countAttempt_other {other : String} (different : other ≠ ip) (now : Int) (rows : List Attempts) :
    (countAttempt other now rows).filter (fun row => row.key == ip) = rows.filter fun row => row.key == ip := by
  unfold countAttempt Rows.upsert
  split
  · simp only [Rows.update, List.filter_map]
    have alike : ((fun row : Attempts => row.key == ip) ∘ fun row => if row.key == other then { row with
        count := if row.reset ≤ now then 1 else row.count + 1
        reset := if row.reset ≤ now then now + 15 * 60 * 1000 else row.reset } else row) = fun row => row.key == ip := by
      funext row
      simp only [Function.comp_apply]
      split <;> rfl
    rw [alike]
    refine (List.map_congr_left fun row member => ?_).trans (List.map_id _)
    have own : row.key = ip := by simpa using (List.mem_filter.mp member).2
    simp [own, Ne.symm different]
  · simp [different]

theorem Thinned.filter {before after : List Attempts} (thinned : Thinned before after) (ip : String) :
    Thinned (before.filter fun row => row.key == ip) (after.filter fun row => row.key == ip) := by
  obtain ⟨gone, rfl⟩ := thinned
  refine ⟨gone, ?_⟩
  simp only [Rows.delete, List.filter_filter]
  exact List.filter_congr fun row _ => Bool.and_comm _ _

theorem insertAdmin_attempts (app : App) (cookie username passwordHash : String) (now : Int) (db : Accounts) :
    Ensures (insertAdmin app cookie username passwordHash now) db fun _ after => after.loginAttempts = db.loginAttempts :=
  ensures_query (ensures_check (fun _ => rfl) fun _ => ensures_query (ensures_check (fun _ => rfl) fun _ _ _ ran => by
    cases ran
    rfl))

theorem step_counts (moved : Administration.Step app w act next) (ip : String) : Counts app ip w next act := by
  have framed := step_framed moved
  cases moved with
  | admitLogin site r now =>
    cases passed : admitLogin site w.db r now with
    | error problem => exact .other _ rfl (le_of_eq (by simp)) rfl (Thinned.refl _)
    | ok =>
      by_cases own : r.ip = ip
      · exact .passed own passed rfl (by simp [own]) rfl
      · exact .other _ rfl (by simp [own]) rfl (Thinned.refl _)
  | verifyLogin r member =>
    have erased : (w.admitted.countP fun r => r.ip == ip) =
        ((w.admitted.erase r).countP fun r => r.ip == ip) + if r.ip == ip then 1 else 0 := by
      rw [(List.perm_cons_erase member).countP_eq, List.countP_cons]
    cases verified : verifyLogin app w.db r with
    | some l =>
      refine .other _ (by simp [fails, verified]) ?_ rfl (Thinned.refl _)
      exact erased ▸ Nat.le_add_right _ _
    | none =>
      by_cases own : r.ip = ip
      · refine .failed (by simp [fails, own, verified]) rfl ?_ ?_
        · simp [erased, own]
        · simp [own]
      · refine .other _ (by simp [fails, own]) ?_ ?_ (Thinned.refl _)
        · exact erased ▸ Nat.le_add_right _ _
        · simp [own]
  | failLogin other now stored member =>
    by_cases own : other = ip
    · subst own
      refine .recorded rfl ?_ fun kept => by simp [failLogin_stored, kept]
      have some_left : 0 < w.failures.count other := List.count_pos_iff.mpr member
      simp only [List.count_erase_self]
      omega
    · refine .other _ rfl (le_refl _) (by simp [List.count_erase_of_ne (Ne.symm own)]) ?_
      have same : rowsOf (failLogin w.db other now stored).2 ip = rowsOf w.db ip := by
        rw [failLogin_stored]
        split
        · exact countAttempt_other own now _
        · rfl
      exact same ▸ Thinned.refl _
  | createAdmin cookie username password passwordHash now stored =>
    refine .other _ rfl (le_refl _) rfl (Thinned.filter ?_ ip)
    simp only [createAdmin]
    split
    · exact Thinned.refl _
    · split
      · exact Thinned.refl _
      · have ran := insertAdmin_attempts app cookie username passwordHash now w.db
        have ends : commit w.db stored (503, "관리자 계정 저장에 실패했습니다.") _ = (_, w.db) ∨ _ := commit_ensures ran
        rcases ends with same | kept
        · exact same ▸ Thinned.refl _
        · exact kept ▸ Thinned.refl _
  | assign => exact .other _ rfl (le_refl _) rfl (Thinned.refl _)
  | _ => exact .other _ rfl (le_refl _) rfl ((framed rfl).attempts.filter ip)

theorem recorded_of_ne {db : Accounts} (other : ∀ row ∈ rowsOf db ip, row.reset ≠ reset) : recorded db ip reset = 0 := by
  have absent : (rowsOf db ip).find? (fun row => row.reset == reset) = none :=
    List.find?_eq_none.mpr fun row member => by simpa using other row member
  simp [recorded, absent]

theorem recorded_eq_failuresOf {db : Accounts} {now : Int} (own : ∀ row ∈ rowsOf db ip, row.reset = reset)
    (open_still : now < reset) : recorded db ip reset = failuresOf db ip now := by
  cases rows : rowsOf db ip with
  | nil => simp [recorded, failuresOf, rows]
  | cons row rest =>
    have ends := own row (by simp [rows])
    simp [recorded, failuresOf, rows, ends, open_still]

def bump (now : Int) (row : Attempts) : Attempts :=
  { row with
    count := if row.reset ≤ now then 1 else row.count + 1
    reset := if row.reset ≤ now then now + 15 * 60 * 1000 else row.reset }

theorem countAttempt_own (ip : String) (now : Int) (rows : List Attempts) :
    (countAttempt ip now rows).filter (fun row => row.key == ip) =
      match rows.filter fun row => row.key == ip with
      | [] => [⟨ip, 1, now + 15 * 60 * 1000⟩]
      | own => own.map (bump now) := by
  unfold countAttempt Rows.upsert
  cases known : Rows.has Attempts.key ip rows with
  | false =>
    have none_own : rows.filter (fun row => row.key == ip) = [] := by
      refine List.filter_eq_nil_iff.mpr fun row member => ?_
      simpa using Rows.has_false_iff.mp known row member
    simp [none_own]
  | true =>
    obtain ⟨row, member, own⟩ := Rows.has_iff.mp known
    have some_own : rows.filter (fun row => row.key == ip) ≠ [] :=
      List.ne_nil_of_mem (List.mem_filter.mpr ⟨member, by simpa using own⟩)
    have alike : ((fun row : Attempts => row.key == ip) ∘ fun row => if row.key == ip then bump now row else row) =
        fun row => row.key == ip := by
      funext row
      simp only [Function.comp_apply]
      split <;> rfl
    have mapped : (Rows.update (fun row : Attempts => row.key == ip) (bump now) rows).filter (fun row => row.key == ip) =
        (rows.filter fun row => row.key == ip).map (bump now) := by
      simp only [Rows.update, List.filter_map, alike]
      refine List.map_congr_left fun row member => ?_
      simp only [(List.mem_filter.mp member).2, if_true]
    split
    · split
      next empty => exact absurd empty some_own
      · exact mapped
    next absent => exact absurd rfl absent

/-- A recorded failure counts in the window that its row then belongs to. -/
theorem recorded_countAttempt {db after : Accounts} {now : Int}
    (counted : after.loginAttempts = countAttempt ip now db.loginAttempts)
    (before : (∀ row ∈ rowsOf db ip, row.reset ≠ reset) ∨ ∀ row ∈ rowsOf db ip, row.reset = reset)
    (own : ∀ row ∈ rowsOf after ip, row.reset = reset) : recorded after ip reset = recorded db ip reset + 1 := by
  have rows : rowsOf after ip = _ := counted ▸ countAttempt_own ip now db.loginAttempts
  change rowsOf after ip = match rowsOf db ip with | [] => _ | own => own.map (bump now) at rows
  cases old : rowsOf db ip with
  | nil =>
    rw [old] at rows
    have ends := own ⟨ip, 1, now + 15 * 60 * 1000⟩ (by simp [rows])
    obtain rfl := ends
    simp [recorded, rows, old]
  | cons row rest =>
    rw [old] at rows before
    have ends := own (bump now row) (by simp [rows])
    have first : recorded after ip reset = (bump now row).count := by simp [recorded, rows, ends]
    rw [first]
    rcases before with other | same
    · -- the row of an older window begins anew
      have zero : recorded db ip reset = 0 := recorded_of_ne (old ▸ other)
      have different := other row (by simp)
      simp only [bump] at ends ⊢
      split at ends
      next past => simp [past, zero]
      · exact absurd ends different
    · have current := same row (by simp)
      have counts : recorded db ip reset = row.count := by simp [recorded, old, current]
      simp only [bump] at ends ⊢
      split at ends
      · omega
      next running => simp [running, counts]

/-- Rows of the window are deleted together. -/
theorem recorded_thinned {db after : Accounts} (thinned : Thinned (rowsOf db ip) (rowsOf after ip))
    (before : (∀ row ∈ rowsOf db ip, row.reset ≠ reset) ∨ ∀ row ∈ rowsOf db ip, row.reset = reset)
    (kept : (∃ row ∈ rowsOf db ip, row.reset = reset) → rowsOf after ip ≠ []) :
    recorded after ip reset = recorded db ip reset := by
  obtain ⟨gone, rows⟩ := thinned
  rcases before with other | same
  · rw [recorded_of_ne other, recorded_of_ne]
    intro row member
    rw [rows] at member
    exact other row (Rows.mem_delete.mp member).1
  · have all : ∀ row ∈ rowsOf db ip, gone row.key row.reset = gone ip reset := by
      intro row member
      have own : row.key = ip := by simpa using (List.mem_filter.mp member).2
      rw [own, same row member]
    have uniform : rowsOf after ip = (rowsOf db ip).filter fun _ => !gone ip reset := by
      rw [rows]
      exact List.filter_congr fun row member => congrArg Bool.not (all row member)
    cases verdict : gone ip reset with
    | false => simp [recorded, uniform, verdict]
    | true =>
      cases old : rowsOf db ip with
      | nil => simp [recorded, uniform, old]
      | cons row rest =>
        have left := kept ⟨row, by simp [old], same row (by simp [old])⟩
        exact absurd (by simp [uniform, verdict]) left

/-- A request that passes the limit is one of at most ten, with the recorded
failures and the requests in flight; and every failure is recorded. -/
structure Heeded (ip : String) (t : Transition Administration AdminAct) : Prop where
  passes : ∀ site r now, t.action = .admitLogin site r now → r.ip = ip → admitLogin site t.before.db r now = .ok () →
    failuresOf t.before.db ip now + inFlight t.before ip < 10
  records : ∀ now stored, t.action = .failLogin ip now stored → stored = true

theorem inFlight_bounded {history} (run : Run (administration app) history w) (heeded : ∀ t ∈ history, Heeded ip t) :
    inFlight w ip ≤ 10 := by
  induction run with
  | start started =>
    obtain ⟨-, -, -, -, -, admitted, failures, -⟩ := started
    simp [inFlight, admitted, failures]
  | @next history w act next earlier moved ih =>
    have before := ih fun t member => heeded t (List.mem_cons_of_mem _ member)
    have here := heeded _ List.mem_cons_self
    simp only [inFlight] at before ⊢
    cases step_counts moved ip with
    | passed own passed _ admitted failures =>
      have few := here.passes _ _ _ rfl own passed
      simp only [inFlight] at few
      rw [admitted, failures]
      omega
    | failed _ _ admitted failures => omega
    | recorded admitted failures _ =>
      rw [admitted]
      omega
    | other _ _ admitted failures _ => omega

/-- The failures of the window are recorded or wait to be, and leave room for
what is still being compared. -/
structure WindowValid (app : App) (ip : String) (reset : Int) (segment : List (Transition Administration AdminAct))
    (w : Administration) : Prop where
  rows : (∀ row ∈ rowsOf w.db ip, row.reset ≠ reset) ∨ ∀ row ∈ rowsOf w.db ip, row.reset = reset
  failed : failedIn app ip segment w ≤ recorded w.db ip reset + w.failures.count ip
  room : recorded w.db ip reset + inFlight w ip ≤ 10

theorem WindowValid.step {segment} (valid : WindowValid app ip reset segment w)
    (window : Window ip reset (⟨w, act, next⟩ :: segment) next) (heeded : Heeded ip ⟨w, act, next⟩)
    (moved : Administration.Step app w act next) : WindowValid app ip reset (⟨w, act, next⟩ :: segment) next := by
  have rows := window.row _ List.mem_cons_self
  have failed := valid.failed
  have room := valid.room
  have charged : failedIn app ip (⟨w, act, next⟩ :: segment) next =
      failedIn app ip segment w + if fails app ip ⟨w, act, next⟩ then 1 else 0 := by
    simp only [failedIn, origin, List.countP_cons]
    omega
  simp only [inFlight] at room
  cases step_counts moved ip with
  | @passed site r now own passed same admitted failures =>
    have few := heeded.passes _ _ _ rfl own passed
    have seen : recorded w.db ip reset ≤ failuresOf w.db ip now := by
      rcases valid.rows with other | current
      · exact (recorded_of_ne other).symm ▸ Nat.zero_le _
      · exact le_of_eq (recorded_eq_failuresOf current (window.clock _ List.mem_cons_self _ _ _ rfl own))
    simp only [inFlight] at few
    refine ⟨Or.inr rows, ?_, ?_⟩
    · rw [charged, same, failures]
      simpa [fails] using failed
    · rw [inFlight, same, admitted, failures]
      omega
  | failed wrong same admitted failures =>
    refine ⟨Or.inr rows, ?_, ?_⟩
    · rw [charged, same, wrong, failures]
      simp only [if_true]
      omega
    · rw [inFlight, same]
      omega
  | @recorded now stored admitted failures counted =>
    have more := recorded_countAttempt (counted (heeded.records _ _ rfl)) valid.rows rows
    refine ⟨Or.inr rows, ?_, ?_⟩
    · rw [charged, more]
      simp only [fails, if_false, Bool.false_eq_true]
      omega
    · rw [inFlight, more, admitted]
      omega
  | other _ right admitted failures thinned =>
    have same := recorded_thinned thinned valid.rows (window.kept _ List.mem_cons_self)
    refine ⟨Or.inr rows, ?_, ?_⟩
    · rw [charged, same, right, failures]
      simpa using failed
    · rw [inFlight, same]
      omega

theorem Window.tail {segment} {t : Transition Administration AdminAct} (window : Window ip reset (t :: segment) w) :
    Window ip reset segment t.before where
  fresh := window.fresh
  row s member := window.row s (List.mem_cons_of_mem _ member)
  kept s member := window.kept s (List.mem_cons_of_mem _ member)
  clock s member := window.clock s (List.mem_cons_of_mem _ member)

theorem window_valid {segment older} (run : Run (administration app) (segment ++ older) w)
    (heeded : ∀ t ∈ segment ++ older, Heeded ip t) (window : Window ip reset segment w) :
    WindowValid app ip reset segment w := by
  induction segment generalizing w with
  | nil =>
    have few := inFlight_bounded run heeded
    have none_recorded := recorded_of_ne window.fresh
    simp only [origin] at none_recorded
    exact ⟨Or.inl window.fresh, by simp [failedIn, origin], by omega⟩
  | cons t segment ih =>
    obtain ⟨rfl, before, moved⟩ := run.newest
    have valid := ih before (fun s member => heeded s (List.mem_cons_of_mem _ member)) window.tail
    exact valid.step window (heeded t List.mem_cons_self) moved

theorem login_attempts_limited {segment older} (run : Run (administration app) (segment ++ older) w)
    (window : Window ip reset segment w) (heeded : ∀ t ∈ segment ++ older, Heeded ip t) :
    failedIn app ip segment w ≤ 10 := by
  have valid := window_valid run heeded window
  have failed := valid.failed
  have room := valid.room
  simp only [inFlight] at room
  omega

/-- Eleven requests with a wrong password pass the limit before the first of them
is recorded. -/
def guess : LoginRequest := ⟨"https://logs", "10.0.0.9", "ops", "a wrong password"⟩

/-- `n` requests passed the limit, `k` have failed and `j` of them are recorded. -/
def crowd (j n k : Nat) : Administration :=
  { opsStart with
    db := { opsStart.db with loginAttempts := if j = 0 then [] else [⟨guess.ip, j, 902000⟩] }
    admitted := List.replicate n guess
    failures := List.replicate k guess.ip }

theorem crowd_passes (n : Nat) :
    Administration.Step plainApp (crowd 0 n 0) (.admitLogin plainSite guess 1000) (crowd 0 (n + 1) 0) := by
  have moved := @Administration.Step.admitLogin plainApp (crowd 0 n 0) plainSite guess 1000
  have passed : admitLogin plainSite (crowd 0 n 0).db guess 1000 = .ok () := by rfl
  rw [passed] at moved
  exact moved

theorem crowd_wrong (j n k : Nat) : verifyLogin plainApp (crowd j n k).db guess = none := by
  have absent : verifyLogin plainApp opsStart.db guess = none := by decide +kernel
  exact absent

theorem crowd_fails (j n k : Nat) : Administration.Step plainApp (crowd j (n + 1) k) (.verifyLogin guess) (crowd j n (k + 1)) := by
  have moved := @Administration.Step.verifyLogin plainApp (crowd j (n + 1) k) guess List.mem_cons_self
  rw [crowd_wrong] at moved
  simpa [crowd, List.replicate_succ] using moved

theorem crowd_recorded (j n k : Nat) :
    Administration.Step plainApp (crowd j n (k + 1)) (.failLogin guess.ip 2000 true) (crowd (j + 1) n k) := by
  have moved := @Administration.Step.failLogin plainApp (crowd j n (k + 1)) guess.ip 2000 true List.mem_cons_self
  rw [failLogin_stored] at moved
  have counted : countAttempt guess.ip 2000 (crowd j n (k + 1)).db.loginAttempts = [⟨guess.ip, j + 1, 902000⟩] := by
    cases j with
    | zero => rfl
    | succ j => simp [crowd, countAttempt, Rows.upsert, Rows.has, Rows.update]
  simp only [if_true, counted] at moved
  simpa [crowd, List.replicate_succ] using moved

structure Rush (segment : List (Transition Administration AdminAct)) (w : Administration) (failures : Nat) : Prop where
  run : Run (administration plainApp) (segment ++ []) w
  window : Window guess.ip 902000 segment w
  failed : failedIn plainApp guess.ip segment w = failures

theorem crowd_rows (j n k : Nat) : ∀ row ∈ rowsOf (crowd j n k).db guess.ip, row.reset = 902000 := by
  cases j <;> simp [crowd, rowsOf]

theorem Rush.step {segment : List (Transition Administration AdminAct)} {failures j n k j' n' k' : Nat} {act : AdminAct}
    (rush : Rush segment (crowd j n k) failures) (later : j ≤ j')
    (moved : Administration.Step plainApp (crowd j n k) act (crowd j' n' k'))
    (clock : ∀ site r now, act = .admitLogin site r now → now < 902000) :
    Rush (⟨crowd j n k, act, crowd j' n' k'⟩ :: segment) (crowd j' n' k')
      (failures + if fails plainApp guess.ip ⟨crowd j n k, act, crowd j' n' k'⟩ then 1 else 0) where
  run := rush.run.next moved
  window := {
    fresh := rush.window.fresh
    row := by
      rintro t (_ | ⟨_, member⟩)
      · exact crowd_rows j' n' k'
      · exact rush.window.row t member
    kept := by
      rintro t (_ | ⟨_, member⟩)
      · rintro ⟨row, there, -⟩
        have some_before : j ≠ 0 := by
          rintro rfl
          simp [crowd, rowsOf] at there
        have some_after : j' ≠ 0 := by omega
        simp [crowd, rowsOf, some_after]
      · exact rush.window.kept t member
    clock := by
      rintro t (_ | ⟨_, member⟩)
      · exact fun site r now same _ => clock site r now same
      · exact rush.window.clock t member }
  failed := by
    have before := rush.failed
    simp only [failedIn, origin, List.countP_cons] at before ⊢
    omega

theorem Rush.start : Rush [] (crowd 0 0 0) 0 where
  run := .start ⟨rfl, rfl, rfl, List.nodup_singleton _, by decide +kernel, rfl, rfl, rfl, rfl⟩
  window := ⟨List.forall_mem_nil _, List.forall_mem_nil _, List.forall_mem_nil _, List.forall_mem_nil _⟩
  failed := rfl

theorem Rush.passed (n : Nat) : ∃ segment, Rush segment (crowd 0 n 0) 0 := by
  induction n with
  | zero => exact ⟨[], Rush.start⟩
  | succ n ih =>
    obtain ⟨segment, rush⟩ := ih
    refine ⟨_, rush.step (le_refl 0) (crowd_passes n) ?_⟩
    rintro _ _ _ ⟨⟩
    decide

theorem Rush.compared (n k : Nat) : ∃ segment, Rush segment (crowd 0 n k) k := by
  induction k generalizing n with
  | zero => exact Rush.passed n
  | succ k ih =>
    obtain ⟨segment, rush⟩ := ih (n + 1)
    have wrong : fails plainApp guess.ip ⟨crowd 0 (n + 1) k, .verifyLogin guess, crowd 0 n (k + 1)⟩ = true := by
      simp [fails, crowd_wrong]
    have failed := rush.step (le_refl 0) (crowd_fails 0 n k) nofun
    rw [wrong] at failed
    exact ⟨_, failed⟩

theorem Rush.counted (j k : Nat) : ∃ segment, Rush segment (crowd j 0 k) (j + k) := by
  induction j generalizing k with
  | zero => exact (Nat.zero_add k).symm ▸ Rush.compared 0 k
  | succ j ih =>
    obtain ⟨segment, rush⟩ := ih (k + 1)
    have recorded := rush.step (Nat.le_succ j) (crowd_recorded j 0 k) nofun
    exact ⟨_, (Nat.succ_add_eq_add_succ j k).symm ▸ recorded⟩

/-- The row of one window counts eleven failures. -/
theorem login_limit_exceeded : ¬ ∀ (app : App) (ip : String) (reset : Int)
    (segment older : List (Transition Administration AdminAct)) (w : Administration),
    Run (administration app) (segment ++ older) w → Window ip reset segment w → failedIn app ip segment w ≤ 10 := by
  intro limited
  obtain ⟨segment, rush⟩ := Rush.counted 11 0
  have few := limited plainApp guess.ip 902000 segment [] (crowd 11 0 0) rush.run rush.window
  rw [rush.failed] at few
  exact absurd few (by decide)

theorem login_attempts_limited_once : ∃ segment, 0 < segment.length ∧
    failedIn plainApp guess.ip segment (crowd 1 0 0) ≤ 10 := by
  have passed := Rush.start.step (le_refl 0) (crowd_passes 0) (by rintro _ _ _ ⟨⟩; decide)
  have compared := passed.step (le_refl 0) (crowd_fails 0 0 0) nofun
  have recorded := compared.step (Nat.le_succ 0) (crowd_recorded 0 0 0) nofun
  refine ⟨_, by decide, login_attempts_limited recorded.run recorded.window ?_⟩
  intro t member
  simp only [List.append_nil, List.mem_cons, List.not_mem_nil, or_false] at member
  obtain rfl | rfl | rfl := member
  · exact ⟨nofun, by rintro now stored ⟨⟩; rfl⟩
  · exact ⟨nofun, nofun⟩
  · exact ⟨fun _ _ now same _ _ => by cases same; decide, nofun⟩

end SshLogger
