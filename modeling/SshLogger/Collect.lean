import SshLogger.Parser
import SshLogger.Spool
import SshLogger.Library.Lines

/-! Reading the audit log (`spool.collect` in `agent/spool.go`). One call sees
one state of the log directory. -/

namespace SshLogger
open Library Library.Lines

structure LogFile where
  inode : String
  content : Bytes
  deriving DecidableEq, Repr

/-- The file at the log's path and the files `Glob(path + "*")` finds beside it. -/
structure LogDir where
  current : LogFile
  rotated : List LogFile
  deriving DecidableEq, Repr

def LogFile.size (file : LogFile) : Nat := file.content.length

/-- The records of one audit id read in this call, in order; never none. -/
structure Group where
  first : Record
  more : List Record
  start : Nat
  ended : Bool
  deriving DecidableEq, Repr

def Group.records (g : Group) : List Record := g.first :: g.more

abbrev Groups := List (Bytes × Group)

/-- What stays the same over the calls of one agent process. -/
structure Collector where
  boot : Bytes
  fromStart : Bool
  lookup : Bytes → Bytes

def maxLines : Nat := 10000

def maxChunk : Nat := 4 * 1024 * 1024

def maxLine : Nat := 1024 * 1024

/-- The checkpoint a call starts from, and whether it was just set: without one,
or after a reboot, reading starts at the end of the current file. -/
def attach (c : Collector) (cp : Checkpoint) (dir : LogDir) : Checkpoint × Bool :=
  if cp.inode == "" || cp.boot != c.boot then
    ({ inode := dir.current.inode
       boot := c.boot
       offset := if c.fromStart && cp.inode == "" then 0 else dir.current.size
       dropped := if cp.boot != [] && cp.boot != c.boot then cp.dropped + 1 else cp.dropped }, true)
  else (cp, false)

/-- The file to read: the one the checkpoint names, wherever rotation has moved
it. If it is gone the gap is counted and reading goes on with the current file. -/
def locate (cp : Checkpoint) (dir : LogDir) : Checkpoint × LogFile :=
  if cp.inode == dir.current.inode then (cp, dir.current)
  else match dir.rotated.find? (fun file => file.inode == cp.inode) with
    | some file => (cp, file)
    | none => ({ cp with dropped := cp.dropped + 1, inode := dir.current.inode, offset := 0 }, dir.current)

def checkTruncated (cp : Checkpoint) (file : LogFile) : Checkpoint :=
  if file.size < cp.offset then { cp with offset := 0, dropped := cp.dropped + 1 } else cp

def addRecord (start : Nat) (r : Record) : Groups → Groups
  | [] => [(r.id, ⟨r, [], start, r.kind == Bytes.utf8 "EOE"⟩)]
  | (id, g) :: rest =>
    if id = r.id then
      (id, { g with more := g.more ++ [r], ended := g.ended || r.kind == Bytes.utf8 "EOE" }) :: rest
    else (id, g) :: addRecord start r rest

def addLine (start : Nat) (line : Bytes) (groups : Groups) : Groups :=
  match parseRecord line with
  | none => groups
  | some r => addRecord start r groups

/-- The read loop: `remaining` lines may still be read, `base` is where it began. -/
def readLoop : Nat → Nat → Nat → Groups → List Bytes → Except String (Nat × Groups)
  | 0, _, offset, groups, _ => .ok (offset, groups)
  | _ + 1, _, offset, groups, [] => .ok (offset, groups)
  | remaining + 1, base, offset, groups, line :: rest =>
    if offset - base < maxChunk then
      if line.length > maxLine then .error "audit record exceeds 1 MiB"
      else readLoop remaining base (offset + line.length) (addLine offset line groups) rest
    else .ok (offset, groups)

/-- An unfinished group that may still grow because it is recent. -/
def isOpen (cutoff : Int) (g : Group) : Bool := !g.ended && g.first.time > cutoff

def holdBack (cutoff : Int) (safe : Nat) (entry : Bytes × Group) : Nat :=
  if isOpen cutoff entry.2 && entry.2.start < safe then entry.2.start else safe

/-- The position up to which this read is final. -/
def safeOffset (cutoff : Int) (size offset : Nat) (groups : Groups) : Nat :=
  let safe := groups.foldl (holdBack cutoff) offset
  match groups.getLast? with
  | some (_, g) =>
    -- The final syscall group may continue beyond this read chunk. Replay it next tick.
    if offset < size && !g.ended && g.start < safe then g.start else safe
  | none => safe

def readFile (cp : Checkpoint) (file : LogFile) (dir : LogDir) (now : Int) :
    Except String (Checkpoint × List Group) :=
  let cp := checkTruncated cp file
  match readLoop maxLines cp.offset cp.offset [] (completeLines (file.content.drop cp.offset)) with
  | .error problem => .error problem
  | .ok (offset, groups) =>
    let safe := safeOffset (now - 3000) file.size offset groups
    let passed := (groups.map Prod.snd).filter fun g => g.start < safe
    if file.inode != dir.current.inode && safe ≥ file.size then
      .ok ({ cp with inode := dir.current.inode, offset := 0 }, passed)
    else .ok ({ cp with offset := safe }, passed)

def read (cp : Checkpoint) (dir : LogDir) (now : Int) : Except String (Checkpoint × List Group) :=
  let (cp, file) := locate cp dir
  readFile cp file dir now

def groupEvents (c : Collector) (passed : List Group) : List Event :=
  passed.flatMap fun g => eventsFor g.records c.boot c.lookup

/-- The events a call hands to its last `commit`. -/
def offered (c : Collector) (cp : Checkpoint) (dir : LogDir) (now : Int) : List Event :=
  match read (attach c cp dir).1 dir now with
  | .error _ => []
  | .ok (_, passed) => groupEvents c passed

/-- `attached` and `stored` tell whether its two transactions succeed. -/
def Spool.collect (s : Spool) (c : Collector) (dir : LogDir) (now : Int) (attached stored : Bool) :
    Spool × Option String :=
  let (cp, fresh) := attach c s.cp dir
  let s := if fresh then s.commit cp [] attached else s
  if fresh && !attached then (s, some "storage")
  else
    match read cp dir now with
    | .error problem => (s, some problem)
    | .ok (cp, passed) => (s.commit cp (groupEvents c passed) stored, if stored then none else some "storage")

end SshLogger
