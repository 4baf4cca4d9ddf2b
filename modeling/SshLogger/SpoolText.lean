import SshLogger.Wire

/-! The spool as it stands in its file: the checkpoint, the queued events and the
cached policy are JSON texts (`agent/spool.go`, `agent/firewall.go`). -/

namespace SshLogger
open Library Library.Bytes Library.Json

/-- `json.Marshal` of a checkpoint. -/
def Checkpoint.json (cp : Checkpoint) : Bytes :=
  jsonObject [jsonMember "inode" (quote (utf8 cp.inode)), jsonMember "offset" (decimal cp.offset),
    jsonMember "boot" (quote cp.boot), jsonMember "dropped" (decimal cp.dropped)]

/-- No agent writes a negative number. -/
def checkpointFields : Fields Checkpoint :=
  [("inode", fun cp v => (decodeString cp.inode v).map fun inode => { cp with inode }),
    ("offset", fun cp v => (decodeInt cp.offset v).map fun offset => { cp with offset := offset.toNat }),
    ("boot", fun cp v => (decodeBytes cp.boot v).map fun boot => { cp with boot }),
    ("dropped", fun cp v => (decodeInt cp.dropped v).map fun dropped => { cp with dropped := dropped.toNat })]

/-- `json.Unmarshal` of a whole text. Unknown members are ignored. -/
def unmarshal {α : Type} (fields : Fields α) (target : α) (raw : Bytes) : Option α :=
  (parse (runes raw)).bind (decodeStruct false fields target)

structure TextRow where
  id : Bytes
  payload : Bytes
  deriving DecidableEq, Repr

/-- The tables of the file; rows of `queue` stand in rowid order. -/
structure SpoolFile where
  checkpoint : Option Bytes
  queue : List TextRow
  firewallCache : CacheRow
  deriving DecidableEq, Repr

structure TextSpool where
  file : SpoolFile
  cp : Checkpoint
  limit : Nat
  deriving DecidableEq, Repr

def openText (file : SpoolFile) (limit : Nat) : Except String TextSpool :=
  match file.checkpoint with
  | none => .ok ⟨file, noCheckpoint, limit⟩
  | some raw =>
    if raw.isEmpty then .ok ⟨file, noCheckpoint, limit⟩
    else match unmarshal checkpointFields noCheckpoint raw with
      | some cp => .ok ⟨file, cp, limit⟩
      | none => .error "json"

/-- `SUM(length(CAST(payload AS BLOB)))` -/
def storedSize (queue : List TextRow) : Nat := (queue.map fun row => row.payload.length).sum

structure TextAdmission where
  queue : List TextRow
  used : Nat
  dropped : Nat
  deriving DecidableEq, Repr

/-- The loop of `commit`. -/
def offerText (limit : Nat) (state : TextAdmission) (ev : Event) : TextAdmission :=
  let raw := ev.json
  if Rows.has TextRow.id ev.id state.queue then state
  else if raw.length > 256 * 1024 || ev.args.length > 4096 || ev.program.length > 4096 || ev.user.length > 256 ||
      ev.effectiveUser.length > 256 || ev.ip.length > 100 || state.used + raw.length > limit then
    { state with dropped := state.dropped + 1 }
  else { state with queue := state.queue ++ [⟨ev.id, raw⟩], used := state.used + raw.length }

namespace TextSpool

def commit (t : TextSpool) (cp : Checkpoint) (events : List Event) (stored : Bool) : TextSpool :=
  if !stored then t
  else
    let state := events.foldl (offerText t.limit) ⟨t.file.queue, storedSize t.file.queue, cp.dropped⟩
    let cp := { cp with dropped := state.dropped }
    { t with file := { t.file with queue := state.queue, checkpoint := some cp.json }, cp }

/-- The loop of `batch`: a payload that is no event ends it. -/
def readBatch : Nat → List Event → List TextRow → Except String (List Event)
  | _, out, [] => .ok out
  | size, out, row :: rest =>
    if size + row.payload.length > 1024 * 1024 && out.length > 0 then .ok out
    else match unmarshal eventFields zeroEvent row.payload with
      | some slot => readBatch (size + row.payload.length) (out ++ [slot.event]) rest
      | none => .error "json"

def batch (t : TextSpool) : Except String (List Event × Nat) :=
  (readBatch 0 [] (t.file.queue.take 100)).map fun events => (events, t.file.queue.length)

def ack (t : TextSpool) (events : List Event) (stored : Bool) : TextSpool :=
  if !stored then t
  else
    let queue := events.foldl (fun queue ev => Rows.delete (fun row => row.id == ev.id) queue) t.file.queue
    { t with file := { t.file with queue } }

def collect (t : TextSpool) (c : Collector) (dir : LogDir) (now : Int) (attached stored : Bool) :
    TextSpool × Option String :=
  let (cp, fresh) := attach c t.cp dir
  let t := if fresh then t.commit cp [] attached else t
  if fresh && !attached then (t, some "storage")
  else
    match read cp dir now with
    | .error problem => (t, some problem)
    | .ok (cp, passed) => (t.commit cp (groupEvents c passed) stored, if stored then none else some "storage")

end TextSpool

inductive SpoolAct
  | reopen (limit : Nat)
  | collect (c : Collector) (dir : LogDir) (now : Int) (attached stored : Bool)
  | ack (events : List Event) (stored : Bool)
  | saveFirewall (p : FirewallPolicy) (nils : NilLists) (stored : Bool)

def TextSpool.perform (t : TextSpool) : SpoolAct → Except String TextSpool
  | .reopen limit => openText t.file limit
  | .collect c dir now attached stored => .ok (t.collect c dir now attached stored).1
  | .ack events stored => .ok (t.ack events stored)
  | .saveFirewall p nils stored =>
    .ok { t with file := { t.file with firewallCache := (saveFirewall t.file.firewallCache nils p stored).2 } }

/-- The same without the texts. -/
def Spool.perform (s : Spool) : SpoolAct → Spool
  | .reopen limit => openSpool s.db limit
  | .collect c dir now attached stored => (s.collect c dir now attached stored).1
  | .ack events stored => s.ack events stored
  | .saveFirewall p _ stored =>
    if p.isValid && stored then { s with db := { s.db with firewallCache := some p } } else s

/-- What a step of the agent does with its spool. `nils` tells which lists of a policy
are nil. -/
def spoolActs (nils : FirewallPolicy → NilLists) (a : Agent) : AgentAct → List SpoolAct
  | .start _ => [.reopen a.spool.limit]
  | .collect c dir now attached stored => [.collect c dir now attached stored]
  | .save stored =>
    match a.phase with
    | .saving p _ => [.saveFirewall p (nils p) stored]
    | _ => []
  | .finish _ stored =>
    match a.phase with
    | .answered rest => [.ack rest.events stored]
    | _ => []
  | _ => []

def newFile : SpoolFile := ⟨none, [], none⟩

end SshLogger
