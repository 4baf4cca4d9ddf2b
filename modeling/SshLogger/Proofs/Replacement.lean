import SshLogger.RestoreFiles

/-! A restore that is cut short can leave the old main file without the `-wal`
file that held its last transactions: the companions are removed before the
rename. It is all or nothing exactly when the main files are complete by
themselves. -/

namespace SshLogger
open Library.Bytes Library.Interaction Library.Schema
open Library.History (Run)

variable {Image : Type} {sqlite : Sqlite Image} {before files after : Files Image} {dest source : String}

structure Restorable (sqlite : Sqlite Image) (files : Files Image) (source : String) : Prop where
  present : (files (.path source)).isSome
  integrity : (sqlite.database files source).integrity = "ok"
  version : ∃ version, schemaVersion (sqlite.database files source).contents = .ok version ∧ 1 ≤ version ∧
    version ≤ currentSchemaVersion

theorem restoreSnapshot_ok {snapshot : Snapshot} : (∃ db, restoreSnapshot snapshot = .ok db) ↔
    snapshot.integrity = "ok" ∧ ∃ version, schemaVersion snapshot.contents = .ok version ∧ 1 ≤ version ∧
      version ≤ currentSchemaVersion := by
  constructor
  · rintro ⟨db, taken⟩
    unfold restoreSnapshot at taken
    split at taken
    · cases taken
    · rename_i sound
      refine ⟨by simpa using sound, ?_⟩
      split at taken
      · cases taken
      · rename_i version found
        split at taken
        · cases taken
        · rename_i known
          simp only [Bool.or_eq_true, decide_eq_true_eq, not_or, not_lt] at known
          exact ⟨version, found, known⟩
  · rintro ⟨sound, version, found, low, high⟩
    refine ⟨snapshot.contents, ?_⟩
    have known : ¬ (version < 1 ∨ version > currentSchemaVersion) := by omega
    simp [restoreSnapshot, sound, found, known]

theorem removed_missing {name : FileName} (missing : ¬ (files name).isSome) : Function.update files name none = files := by
  have absent : files name = none := by simpa using missing
  rw [← absent, Function.update_eq_self]

/-- Every path but the one that is removed or renamed to stays as it is. -/
theorem DiskAnswers.kept {operation : FileOperation} {answer : Except Failure Unit} {name : String}
    (answers : DiskAnswers sqlite files (.perform operation) answer after)
    (stays : operation ≠ .remove (.path name)) (apart : operation ≠ .rename name) :
    after (.path name) = files (.path name) := by
  cases answers with
  | quiet | fails => rfl
  | createTemp | copy | copyFails => exact Function.update_of_ne FileName.noConfusion _ _
  | @remove _ removed =>
    apply Function.update_of_ne
    rintro rfl
    exact stays rfl
  | @rename _ target =>
    rw [Function.update_of_ne FileName.noConfusion]
    apply Function.update_of_ne
    intro same
    obtain rfl := FileName.path.inj same
    exact apart rfl

theorem DiskAnswers.still {operation : FileOperation} {answer : Except Failure Unit} (quiet : operation.quiet)
    (answers : DiskAnswers sqlite files (.perform operation) answer after) : after = files := by
  cases answers with
  | quiet | fails => rfl
  | createTemp | copy | copyFails | remove | rename => cases quiet

def Intact (before files : Files Image) : Prop := ∀ name, files (.path name) = before (.path name)

/-- The main file is the old one, and its `-wal` file is gone. -/
structure Stripped (before : Files Image) (dest : String) (files : Files Image) : Prop where
  main : files (.path dest) = before (.path dest)
  wal : files (.path (dest ++ "-wal")) = none

structure Swapped (before : Files Image) (dest source : String) (files : Files Image) : Prop where
  main : files (.path dest) = before (.path source)
  wal : files (.path (dest ++ "-wal")) = none

/-- All that a restore leaves behind, wherever it stops. -/
def Left (sqlite : Sqlite Image) (before : Files Image) (dest source : String) (files : Files Image) : Prop :=
  Intact before files ∨ Restorable sqlite before source ∧ (Stripped before dest files ∨ Swapped before dest source files)

def Carried (before : Files Image) (source : String) (stage : Files Image → Prop) (files : Files Image) : Prop :=
  files .temporary = before (.path source) ∧ stage files

theorem wal_ne : dest ++ "-wal" ≠ dest := by
  intro same
  have lengths := congrArg String.length same
  simp at lengths

theorem shm_ne : dest ++ "-shm" ≠ dest := by
  intro same
  have lengths := congrArg String.length same
  simp at lengths

theorem shm_ne_wal : dest ++ "-shm" ≠ dest ++ "-wal" := by
  intro same
  have suffixes := congrArg String.toList same
  simp at suffixes

theorem Intact.unlogged (intact : Intact before files) :
    Stripped before dest (Function.update files (.path (dest ++ "-wal")) none) := by
  refine ⟨(Function.update_of_ne ?_ _ _).trans (intact dest), Function.update_self ..⟩
  exact fun same => wal_ne (FileName.path.inj same).symm

theorem Stripped.unshared (stripped : Stripped before dest files) :
    Stripped before dest (Function.update files (.path (dest ++ "-shm")) none) := by
  refine ⟨(Function.update_of_ne ?_ _ _).trans stripped.main, (Function.update_of_ne ?_ _ _).trans stripped.wal⟩
  · exact fun same => shm_ne (FileName.path.inj same).symm
  · exact fun same => shm_ne_wal (FileName.path.inj same).symm

theorem loaded_update {stage next : Files Image → Prop} {name : String} (loaded : Carried before source stage files)
    (advances : stage files → next (Function.update files (.path name) none)) :
    Carried before source next (Function.update files (.path name) none) :=
  ⟨(Function.update_of_ne FileName.noConfusion _ _).trans loaded.1, advances loaded.2⟩

theorem Carried.swapped (loaded : Carried before source (Stripped before dest) files) :
    Swapped before dest source
      (Function.update (Function.update files (.path dest) (files .temporary)) .temporary none) := by
  refine ⟨?_, ?_⟩
  · rw [Function.update_of_ne FileName.noConfusion, Function.update_self, loaded.1]
  · rw [Function.update_of_ne FileName.noConfusion, Function.update_of_ne, loaded.2.wal]
    exact fun same => wal_ne (FileName.path.inj same)

theorem Left.congr (left : Left sqlite before dest source files)
    (same : ∀ name, after (.path name) = files (.path name)) : Left sqlite before dest source after := by
  obtain intact | ⟨restorable, stripped | swapped⟩ := left
  · exact .inl fun name => (same name).trans (intact name)
  · exact .inr ⟨restorable, .inl ⟨(same _).trans stripped.main, (same _).trans stripped.wal⟩⟩
  · exact .inr ⟨restorable, .inr ⟨(same _).trans swapped.main, (same _).trans swapped.wal⟩⟩

section
variable {pre middle : Files Image → Prop}

abbrev Restores (sqlite : Sqlite Image) (before : Files Image) (dest source : String) (pre : Files Image → Prop)
    (program : RestoreProgram) : Prop :=
  Meets (disk sqlite) (Left sqlite before dest source) pre (fun _ _ => True) program

theorem disk_stable (assertion : Files Image → Prop) :
    Stable (disk sqlite) (Left sqlite before dest source) assertion := fun _ _ _ moves _ => moves.elim

theorem replies_quiet_file {operation : FileOperation} (quiet : operation.quiet) (pre : Files Image → Prop) :
    Replies (disk sqlite) (Left sqlite before dest source) (.perform operation) pre fun _ => pre := by
  refine ⟨disk_stable pre, fun files answer after left holds answers => ?_⟩
  obtain rfl := DiskAnswers.still quiet answers
  exact ⟨left, holds⟩

theorem replies_still {operation : FileOperation} (quiet : operation.quiet) (pre : Files Image → Prop) :
    Replies (disk sqlite) (Left sqlite before dest source) (.perform operation) pre fun done files =>
      done = .ok () → pre files := by
  refine ⟨disk_stable pre, fun files answer after left holds answers => ?_⟩
  obtain ⟨still, holds⟩ := (replies_quiet_file quiet pre).execute files answer after left holds answers
  exact ⟨still, fun _ => holds⟩

/-- A file that could be removed and one that was not there are gone in the same way. -/
theorem replies_remove {name : FileName}
    (gone : ∀ files, Left sqlite before dest source files → pre files →
      Left sqlite before dest source (Function.update files name none) ∧ middle (Function.update files name none)) :
    Replies (disk sqlite) (Left sqlite before dest source) (.perform (.remove name)) pre fun removed files =>
      (∀ failure, removed = .error failure → failure.errno = .enoent) → middle files := by
  refine ⟨disk_stable pre, fun files answer after left holds answers => ?_⟩
  cases answers with
  | quiet quiet => cases quiet
  | remove => exact (gone files left holds).imp_right fun done _ => done
  | @fails _ failure other =>
    refine ⟨left, fun missing => ?_⟩
    have absent : ¬ (files name).isSome := fun present => other name rfl present (missing failure rfl)
    have done := (gone files left holds).2
    rwa [removed_missing absent] at done

theorem restores_attempt {operation : FileOperation} {rest : RestoreProgram}
    (replies : Replies (disk sqlite) (Left sqlite before dest source) (.perform operation) pre fun done files =>
      done = .ok () → middle files)
    (continues : Restores sqlite before dest source middle rest) :
    Restores sqlite before dest source pre (attempt operation rest) := by
  refine Meets.bind (Meets.ask replies) fun done => ?_
  cases done with
  | error failure => exact Meets.pure fun _ _ _ => trivial
  | ok _ => exact continues.weaken fun _ _ done => done rfl

theorem restores_attemptOpen {operation : FileOperation} {rest : RestoreProgram}
    (replies : Replies (disk sqlite) (Left sqlite before dest source) (.perform operation) pre fun done files =>
      done = .ok () → middle files)
    (continues : Restores sqlite before dest source middle rest) :
    Restores sqlite before dest source pre (attemptOpen operation rest) := by
  refine Meets.bind (Meets.ask replies) fun done => ?_
  cases done with
  | error failure =>
    refine Meets.bind (Meets.ask (replies_quiet_file rfl _)) fun _ => ?_
    exact Meets.pure fun _ _ _ => trivial
  | ok _ => exact continues.weaken fun _ _ done => done rfl

theorem restores_quiet {operation : FileOperation} {rest : RestoreProgram} (quiet : operation.quiet)
    (continues : Restores sqlite before dest source pre rest) :
    Restores sqlite before dest source pre (attempt operation rest) :=
  restores_attempt (replies_still quiet pre) continues

theorem restores_deferred {operation : FileOperation} {body : RestoreProgram}
    (replies : Replies (disk sqlite) (Left sqlite before dest source) (.perform operation) (fun _ => True)
      fun _ _ => True)
    (restores : Restores sqlite before dest source pre body) :
    Restores sqlite before dest source pre (deferred operation body) := by
  refine Meets.bind restores fun _ => Meets.bind (Meets.ask replies) fun _ => ?_
  exact Meets.pure fun _ _ _ => trivial

variable (middle) in
theorem restores_companion {rest : RestoreProgram} {suffix : String} {suffixes : List String}
    (gone : ∀ files, Left sqlite before dest source files → pre files →
      Left sqlite before dest source (Function.update files (.path (dest ++ suffix)) none) ∧
        middle (Function.update files (.path (dest ++ suffix)) none))
    (continues : Restores sqlite before dest source middle (removeCompanions dest rest suffixes)) :
    Restores sqlite before dest source pre (removeCompanions dest rest (suffix :: suffixes)) := by
  refine Meets.bind (Meets.ask (replies_remove gone)) fun removed => ?_
  cases removed with
  | ok _ => exact continues.weaken fun _ _ done => done fun _ failed => by cases failed
  | error failure =>
    by_cases missing : failure.errno = .enoent
    · simp only [missing, beq_self_eq_true, if_true]
      refine continues.weaken fun _ _ done => done fun other same => ?_
      cases same
      exact missing
    · have other : (failure.errno == .enoent) = false := by simpa using missing
      simp only [other, Bool.false_eq_true, if_false]
      exact Meets.pure fun _ _ _ => trivial

end

theorem restores_replaceFile (dest : String) (restorable : Restorable sqlite before source) :
    Restores sqlite before dest source (Carried before source (Intact before)) (replaceFile dest) := by
  unfold replaceFile
  apply restores_companion (Carried before source (Stripped before dest))
  · intro files left loaded
    exact ⟨.inr ⟨restorable, .inl loaded.2.unlogged⟩, loaded_update loaded Intact.unlogged⟩
  apply restores_companion (Carried before source (Stripped before dest))
  · intro files left loaded
    exact ⟨.inr ⟨restorable, .inl loaded.2.unshared⟩, loaded_update loaded Stripped.unshared⟩
  have renamed : Replies (disk sqlite) (Left sqlite before dest source) (.perform (.rename dest))
      (Carried before source (Stripped before dest)) fun done files => done = .ok () → True := by
    refine ⟨disk_stable _, fun files answer after left loaded answers => ⟨?_, fun _ => trivial⟩⟩
    cases answers with
    | quiet quiet => cases quiet
    | fails => exact left
    | rename => exact .inr ⟨restorable, .inr loaded.swapped⟩
  refine restores_attempt renamed (restores_quiet rfl ?_)
  refine restores_deferred (replies_quiet_file rfl _) (restores_quiet rfl ?_)
  exact Meets.pure fun _ _ _ => trivial

theorem restores_copyFile (getuid : Nat) (restorable : Restorable sqlite before source) :
    Restores sqlite before dest source (Intact before) (copyFile getuid dest source) := by
  have copied : Replies (disk sqlite) (Left sqlite before dest source) (.perform (.copy source)) (Intact before)
      fun done files => done = .ok () → Carried before source (Intact before) files := by
    refine ⟨disk_stable _, fun files answer after left intact answers => ?_⟩
    have same : ∀ name, after (.path name) = files (.path name) :=
      fun name => answers.kept FileOperation.noConfusion FileOperation.noConfusion
    refine ⟨left.congr same, fun copied => ⟨?_, fun name => (same name).trans (intact name)⟩⟩
    cases answers with
    | quiet quiet => cases quiet
    | copy => rw [Function.update_self, intact source]
    | copyFails | fails => cases copied
  have replaces := restores_replaceFile dest restorable
  refine restores_attemptOpen copied (restores_attemptOpen (replies_still rfl _) (restores_quiet rfl ?_))
  split
  · exact restores_quiet rfl replaces
  · exact replaces

theorem restores_placeFile (getuid : Nat) (restorable : Restorable sqlite before source) :
    Restores sqlite before dest source (Intact before) (placeFile getuid dest source) := by
  refine restores_quiet rfl (restores_quiet rfl (restores_deferred (replies_quiet_file rfl _) ?_))
  have created : Replies (disk sqlite) (Left sqlite before dest source) (.perform .createTemp) (Intact before)
      fun done files => done = .ok () → Intact before files := by
    refine ⟨disk_stable _, fun files answer after left intact answers => ?_⟩
    have same : ∀ name, after (.path name) = files (.path name) :=
      fun name => answers.kept FileOperation.noConfusion FileOperation.noConfusion
    exact ⟨left.congr same, fun _ name => (same name).trans (intact name)⟩
  have removed : Replies (disk sqlite) (Left sqlite before dest source) (.perform (.remove .temporary))
      (fun _ => True) fun _ _ => True := by
    refine ⟨disk_stable _, fun files answer after left _ answers => ⟨left.congr fun name => ?_, trivial⟩⟩
    exact answers.kept (by simp) FileOperation.noConfusion
  exact restores_attempt created (restores_deferred removed (restores_copyFile getuid restorable))

theorem restores_restoreFile (getuid : Nat) (dest source : String) :
    Restores sqlite before dest source (Intact before) (restoreFile getuid dest source) := by
  refine restores_quiet rfl ?_
  have inspected : Replies (disk sqlite) (Left sqlite before dest source) (.inspect source) (Intact before)
      fun answer files => (∀ snapshot, answer = .ok snapshot → (before (.path source)).isSome ∧
        snapshot = sqlite.database before source) ∧ Intact before files := by
    refine ⟨disk_stable _, fun files answer after left intact answers => ?_⟩
    cases answers with
    | inspectFails => exact ⟨left, (fun _ failed => by cases failed), intact⟩
    | inspect present =>
      refine ⟨left, fun snapshot opened => ?_, intact⟩
      cases opened
      rw [intact source] at present
      exact ⟨present, by rw [Sqlite.database, intact, intact, intact, Sqlite.database]⟩
  refine Meets.bind (Meets.ask inspected) fun answer => Meets.of_fact fun opened => ?_
  cases answer with
  | error failure => exact Meets.pure fun _ _ _ => trivial
  | ok snapshot =>
    dsimp only
    split
    · exact Meets.pure fun _ _ _ => trivial
    · rename_i db taken
      obtain ⟨present, rfl⟩ := opened snapshot rfl
      obtain ⟨sound, version⟩ := restoreSnapshot_ok.mp ⟨db, taken⟩
      exact restores_placeFile getuid ⟨present, sound, version⟩

abbrev RestoreRun (sqlite : Sqlite Image) (getuid : Nat) (dest source : String) (before : Files Image) :=
  Run ((disk sqlite).system (· = before) (restoreFile getuid dest source))

theorem restore_leaves {getuid : Nat} {history rest}
    (run : RestoreRun sqlite getuid dest source before history (files, rest)) :
    Left sqlite before dest source files := by
  refine (restores_restoreFile getuid dest source).sound (fun _ _ _ moves => moves.elim) ?_ run
  rintro _ rfl
  exact ⟨.inl fun _ => rfl, fun _ => rfl⟩

theorem Intact.opened (intact : Intact before files) : sqlite.database files dest = sqlite.database before dest := by
  rw [Sqlite.database, intact, intact, intact, Sqlite.database]

theorem Stripped.opened (stripped : Stripped before dest files) :
    sqlite.database files dest = sqlite.bare before dest := by
  rw [Sqlite.database, stripped.main, stripped.wal, sqlite.reindexed, Sqlite.bare]

theorem Swapped.opened (swapped : Swapped before dest source files) :
    sqlite.database files dest = sqlite.bare before source := by
  rw [Sqlite.database, swapped.main, swapped.wal, sqlite.reindexed, Sqlite.bare]

def cleaned (program : RestoreProgram) : RestoreProgram := deferred .close (deferred (.remove .temporary) program)

theorem companion_removed {getuid : Nat} {rest : RestoreProgram} {suffix : String} {suffixes : List String} {history}
    (run : RestoreRun sqlite getuid dest source before history
      (files, cleaned (removeCompanions dest rest (suffix :: suffixes)))) :
    ∃ history, RestoreRun sqlite getuid dest source before history
      (Function.update files (.path (dest ++ suffix)) none, cleaned (removeCompanions dest rest suffixes)) := by
  by_cases present : (files (.path (dest ++ suffix))).isSome
  · exact Environment.answered run rfl (.remove present)
  · have missing : DiskAnswers sqlite files (.perform (.remove (.path (dest ++ suffix)))) (.error ⟨.enoent, []⟩) files :=
      .fails fun name same there => by cases same; exact absurd there present
    rw [removed_missing present]
    exact Environment.answered run rfl missing

theorem restore_strips (getuid : Nat) (dest : String) (restorable : Restorable sqlite before source) :
    ∃ history files rest, RestoreRun sqlite getuid dest source before history (files, cleaned (attempt (.rename dest) rest)) ∧
      Carried before source (Stripped before dest) files := by
  obtain ⟨db, taken⟩ := restoreSnapshot_ok.mpr ⟨restorable.integrity, restorable.version⟩
  have begun : RestoreRun sqlite getuid dest source before [] (before, restoreFile getuid dest source) :=
    .start ⟨rfl, rfl⟩
  obtain ⟨_, run⟩ := Environment.answered begun rfl (.quiet rfl)
  obtain ⟨_, run⟩ := Environment.answered run rfl (.inspect restorable.present)
  simp only [Program.bind, taken] at run
  -- `abs` and the checks are done; every operation from here on succeeds
  obtain ⟨_, run⟩ := Environment.answered run rfl (.quiet rfl)
  obtain ⟨_, run⟩ := Environment.answered run rfl (.quiet rfl)
  obtain ⟨image, _⟩ := Option.isSome_iff_exists.mp restorable.present
  obtain ⟨_, run⟩ := Environment.answered run rfl (@DiskAnswers.createTemp _ _ _ image)
  obtain ⟨_, run⟩ := Environment.answered run rfl (.copy restorable.present)
  obtain ⟨_, run⟩ := Environment.answered run rfl (.quiet rfl)
  obtain ⟨_, run⟩ := Environment.answered run rfl (.quiet rfl)
  have copied : ∃ history files, RestoreRun sqlite getuid dest source before history
      (files, cleaned (if getuid == 0 then attempt .chown (replaceFile dest) else replaceFile dest)) ∧
        Carried before source (Intact before) files := by
    refine ⟨_, _, run, Function.update_self .., fun name => ?_⟩
    rw [Function.update_of_ne FileName.noConfusion, Function.update_of_ne FileName.noConfusion]
  obtain ⟨_, files, run, loaded⟩ := copied
  have placed : ∃ history, RestoreRun sqlite getuid dest source before history (files, cleaned (replaceFile dest)) := by
    split at run
    · exact Environment.answered run rfl (.quiet rfl)
    · exact ⟨_, run⟩
  obtain ⟨_, run⟩ := placed
  obtain ⟨_, run⟩ := companion_removed run
  obtain ⟨_, run⟩ := companion_removed run
  exact ⟨_, _, _, run, loaded_update (loaded_update loaded Intact.unlogged) Stripped.unshared⟩

/-- Going on from there, the snapshot takes the place of the main file. -/
theorem restore_swaps (getuid : Nat) (dest : String) (restorable : Restorable sqlite before source) :
    ∃ history files rest, RestoreRun sqlite getuid dest source before history (files, rest) ∧
      Swapped before dest source files := by
  obtain ⟨_, files, rest, run, loaded⟩ := restore_strips getuid dest restorable
  have present : (files .temporary).isSome := by
    rw [loaded.1]
    exact restorable.present
  obtain ⟨_, run⟩ := Environment.answered run rfl (.rename present)
  exact ⟨_, _, _, run, loaded.swapped⟩

def OldOrSnapshot (sqlite : Sqlite Image) (before : Files Image) (dest source : String) (found : Snapshot) : Prop :=
  found = sqlite.database before dest ∨ found = sqlite.database before source

/-- Wherever the restore stops, the destination opens with all its old contents or all of the snapshot's. -/
def AllOrNothing (sqlite : Sqlite Image) (getuid : Nat) (dest source : String) (before : Files Image) : Prop :=
  ∀ history files rest, RestoreRun sqlite getuid dest source before history (files, rest) →
    OldOrSnapshot sqlite before dest source (sqlite.database files dest)

/-- A restore that gets past its checks is all or nothing only when each main file is complete by itself. -/
theorem restore_allOrNothing (sqlite : Sqlite Image) (getuid : Nat) (dest source : String) (before : Files Image) :
    AllOrNothing sqlite getuid dest source before ↔
      (Restorable sqlite before source → OldOrSnapshot sqlite before dest source (sqlite.bare before dest) ∧
        OldOrSnapshot sqlite before dest source (sqlite.bare before source)) := by
  constructor
  · intro whole restorable
    obtain ⟨_, _, _, strips, loaded⟩ := restore_strips getuid dest restorable
    obtain ⟨_, _, _, swaps, swapped⟩ := restore_swaps getuid dest restorable
    refine ⟨?_, ?_⟩
    · rw [← loaded.2.opened]
      exact whole _ _ _ strips
    · rw [← swapped.opened]
      exact whole _ _ _ swaps
  · intro complete history files rest run
    obtain intact | ⟨restorable, stripped | swapped⟩ := restore_leaves run
    · rw [intact.opened]
      exact .inl rfl
    · rw [stripped.opened]
      exact (complete restorable).1
    · rw [swapped.opened]
      exact (complete restorable).2

/-- A main file, or the events that only a `-wal` file has yet. -/
inductive StoreImage
  | main (contents : Database)
  | wal (events : List (List Value))

def storeImages : Sqlite StoreImage where
  opened main wal _ := match main, wal with
    | some (.main contents), none => ⟨"ok", contents⟩
    | some (.main contents), some (.wal events) =>
      ⟨"ok", contents.modify "events" fun t => { t with rows := t.rows ++ events }⟩
    | none, none => ⟨"ok", ⟨[], []⟩⟩
    | _, _ => ⟨"file is not a database", ⟨[], []⟩⟩
  reindexed _ _ _ := rfl

def eventStore (events : List (List Value)) : Database where
  tables := [⟨"schema_version", [⟨"version", "INTEGER NOT NULL"⟩], [], [[.integer 6]]⟩,
    ⟨"events", [⟨"seq", "INTEGER PRIMARY KEY AUTOINCREMENT"⟩], [], events⟩]
  indexes := []

/-- The server was killed with an event in its `-wal` file, and the snapshot has another one. -/
def killedStore : Files StoreImage
  | .path "/data/sshlogger.db" => some (.main (eventStore []))
  | .path "/data/sshlogger.db-wal" => some (.wal [[.integer 1]])
  | .path "/restore.db" => some (.main (eventStore [[.integer 2]]))
  | _ => none

/-- A server that was stopped has written its `-wal` file back. -/
def stoppedStore : Files StoreImage
  | .path "/data/sshlogger.db" => some (.main (eventStore [[.integer 1]]))
  | .path "/restore.db" => some (.main (eventStore [[.integer 2]]))
  | _ => none

theorem restore_allOrNothing_stopped : Restorable storeImages stoppedStore "/restore.db" ∧
    AllOrNothing storeImages 0 "/data/sshlogger.db" "/restore.db" stoppedStore :=
  ⟨⟨rfl, rfl, 6, rfl, by decide, by decide⟩, (restore_allOrNothing _ _ _ _ _).mpr fun _ => ⟨.inl rfl, .inr rfl⟩⟩

theorem restore_loses_events : ¬ AllOrNothing storeImages 0 "/data/sshlogger.db" "/restore.db" killedStore := by
  intro whole
  have restorable : Restorable storeImages killedStore "/restore.db" := ⟨rfl, rfl, 6, rfl, by decide, by decide⟩
  obtain ⟨_, _, _, strips, loaded⟩ := restore_strips 0 "/data/sshlogger.db" restorable
  have found := whole _ _ _ strips
  rw [loaded.2.opened] at found
  have bare : storeImages.bare killedStore "/data/sshlogger.db" = ⟨"ok", eventStore []⟩ := rfl
  have old : storeImages.database killedStore "/data/sshlogger.db" = ⟨"ok", eventStore [[.integer 1]]⟩ := rfl
  have snapshot : storeImages.database killedStore "/restore.db" = ⟨"ok", eventStore [[.integer 2]]⟩ := rfl
  rw [OldOrSnapshot, bare, old, snapshot] at found
  simp [eventStore] at found

end SshLogger
