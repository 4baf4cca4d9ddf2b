import SshLogger.AgentTermination
import SshLogger.Backup

/-! How a snapshot takes the place of the store's file (`server/restore.go`). A
database is more than its main file: what the last transactions wrote may be in
its `-wal` file only. Every operation can fail, and the process can die at any
moment; what it leaves is what the operations before have done to the files. -/

namespace SshLogger
open Library Library.Bytes Library.Interaction

/-- `CreateTemp` picks a name that nothing else has. -/
inductive FileName
  | path (name : String)
  | temporary
  deriving DecidableEq, Repr

abbrev Files (Image : Type) := FileName → Option Image

/-- What SQLite finds in a main file with its `-wal` and `-shm` files. The last is an index
of the one before, made anew by the first to open the database. -/
structure Sqlite (Image : Type) where
  opened (main wal shm : Option Image) : Snapshot
  reindexed : ∀ main wal shm, opened main wal shm = opened main wal none

namespace Sqlite

variable {Image : Type} (sqlite : Sqlite Image)

def database (files : Files Image) (name : String) : Snapshot :=
  sqlite.opened (files (.path name)) (files (.path (name ++ "-wal"))) (files (.path (name ++ "-shm")))

def bare (files : Files Image) (name : String) : Snapshot := sqlite.opened (files (.path name)) none none

end Sqlite

/-- `copy` writes what is in the source to the temporary file. -/
inductive FileOperation
  | abs
  | mkdirAll
  | openSource
  | createTemp
  | copy (source : String)
  | sync
  | close
  | chown
  | remove (name : FileName)
  | rename (dest : String)
  | openDir
  deriving DecidableEq, Repr

/-- `inspect` opens the source read-only and asks for its integrity and version. -/
inductive FileCall
  | inspect (source : String)
  | perform (operation : FileOperation)
  deriving DecidableEq, Repr

abbrev FileCall.Answer : FileCall → Type
  | .inspect _ => Except Failure Snapshot
  | .perform _ => Except Failure Unit

abbrev RestoreProgram := Program FileCall FileCall.Answer (Except Bytes Unit)

def file (operation : FileOperation) : Program FileCall FileCall.Answer (Except Failure Unit) :=
  Program.ask (FileCall.perform operation)

def inspect (source : String) : Program FileCall FileCall.Answer (Except Failure Snapshot) :=
  Program.ask (FileCall.inspect source)

def attempt (operation : FileOperation) (rest : RestoreProgram) : RestoreProgram := do
  let done ← file operation
  match done with
  | .error failure => pure (.error failure.text)
  | .ok () => rest

/-- The temporary file is closed first when the operation fails. -/
def attemptOpen (operation : FileOperation) (rest : RestoreProgram) : RestoreProgram := do
  let done ← file operation
  match done with
  | .error failure => do
    let _ ← file .close
    pure (.error failure.text)
  | .ok () => rest

/-- `defer`, for an operation whose error nobody looks at. -/
def deferred (operation : FileOperation) (body : RestoreProgram) : RestoreProgram := do
  let result ← body
  let _ ← file operation
  pure result

/-- A companion file that is not there needs no removal. -/
def removeCompanions (dest : String) (rest : RestoreProgram) : List String → RestoreProgram
  | [] => rest
  | suffix :: suffixes => do
    let removed ← file (.remove (.path (dest ++ suffix)))
    match removed with
    | .error failure =>
      if failure.errno == .enoent then removeCompanions dest rest suffixes else pure (.error failure.text)
    | .ok () => removeCompanions dest rest suffixes

def replaceFile (dest : String) : RestoreProgram :=
  removeCompanions dest
    (attempt (.rename dest) (attempt .openDir (deferred .close (attempt .sync (pure (.ok ())))))) ["-wal", "-shm"]

def copyFile (getuid : Nat) (dest source : String) : RestoreProgram :=
  attemptOpen (.copy source) (attemptOpen .sync (attempt .close
    (if getuid == 0 then attempt .chown (replaceFile dest) else replaceFile dest)))

def placeFile (getuid : Nat) (dest source : String) : RestoreProgram :=
  attempt .mkdirAll (attempt .openSource (deferred .close
    (attempt .createTemp (deferred (.remove .temporary) (copyFile getuid dest source)))))

def restoreFile (getuid : Nat) (dest source : String) : RestoreProgram :=
  attempt .abs do
    let inspected ← inspect source
    match inspected with
    | .error failure => pure (.error (utf8 "invalid backup: : " ++ failure.text))
    | .ok snapshot =>
      match restoreSnapshot snapshot with
      | .error problem => pure (.error (utf8 problem))
      | .ok _ => placeFile getuid dest source

/-- Operations that leave what is in the files alone. -/
def FileOperation.quiet : FileOperation → Bool
  | .abs | .mkdirAll | .openSource | .sync | .close | .chown | .openDir => true
  | .createTemp | .copy _ | .remove _ | .rename _ => false

/-- A call that fails has no effect, but a copy may have been cut short. Only a file that is
not there is reported as missing, and a rename is one step. -/
inductive DiskAnswers {Image : Type} (sqlite : Sqlite Image) :
    Files Image → (call : FileCall) → call.Answer → Files Image → Prop
  | inspect {files source} : (files (.path source)).isSome →
      DiskAnswers sqlite files (.inspect source) (.ok (sqlite.database files source)) files
  | inspectFails {files source failure} : DiskAnswers sqlite files (.inspect source) (.error failure) files
  | quiet {files operation} : operation.quiet → DiskAnswers sqlite files (.perform operation) (.ok ()) files
  | createTemp {files image} :
      DiskAnswers sqlite files (.perform .createTemp) (.ok ()) (Function.update files .temporary (some image))
  | copy {files source} : (files (.path source)).isSome →
      DiskAnswers sqlite files (.perform (.copy source)) (.ok ())
        (Function.update files .temporary (files (.path source)))
  | copyFails {files source failure image} :
      DiskAnswers sqlite files (.perform (.copy source)) (.error failure) (Function.update files .temporary (some image))
  | remove {files name} : (files name).isSome →
      DiskAnswers sqlite files (.perform (.remove name)) (.ok ()) (Function.update files name none)
  | rename {files dest} : (files .temporary).isSome →
      DiskAnswers sqlite files (.perform (.rename dest)) (.ok ())
        (Function.update (Function.update files (.path dest) (files .temporary)) .temporary none)
  | fails {files operation failure} :
      (∀ name, operation = .remove name → (files name).isSome → failure.errno ≠ .enoent) →
      DiskAnswers sqlite files (.perform operation) (.error failure) files

/-- The server is stopped: nobody else touches the files. -/
def disk {Image : Type} (sqlite : Sqlite Image) : Environment FileCall FileCall.Answer (Files Image) where
  moves _ _ := False
  answers := DiskAnswers sqlite

end SshLogger
