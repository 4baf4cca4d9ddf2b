import SshLogger.Event
import Mathlib.Data.List.Sort

/-! Audit lines, their records and the events of one record group
(`agent/parser.go`). The two regular expressions are written out as the
leftmost-first matchers they denote. -/

namespace SshLogger
open Library Library.Bytes

/-- The field map of a record keeps the last value written for a key. -/
structure Record where
  kind : Bytes
  id : Bytes
  time : Int
  fields : List (Bytes × Bytes)
  deriving DecidableEq, Repr

/-- Assignment to a map whose entries are kept in order of first insertion. -/
def assign {κ α : Type} [DecidableEq κ] (key : κ) (value : α) : List (κ × α) → List (κ × α)
  | [] => [(key, value)]
  | entry :: rest => if entry.1 = key then (key, value) :: rest else entry :: assign key value rest

def Record.field (r : Record) (name : String) : Bytes := (r.fields.lookup (utf8 name)).getD []

def digitsThen (stop : Char) (text : Bytes) : Option (Bytes × Bytes) :=
  let run := text.takeWhile isDigit
  match text.dropWhile isDigit with
  | byte :: rest => if !run.isEmpty && byte == ascii stop then some (run, rest) else none
  | [] => none

/-- `msg=audit(sec.ms:serial)` at the head of the text. -/
def matchStamp (text : Bytes) : Option (Bytes × Bytes × Bytes) :=
  if hasPrefix text (utf8 "msg=audit(") then do
    let (sec, rest) ← digitsThen '.' (text.drop 10)
    let (ms, rest) ← digitsThen ':' rest
    let (serial, _) ← digitsThen ')' rest
    return (sec, ms, serial)
  else none

/-- `.*?` takes as little as it can and never a newline. -/
def findStamp : Bytes → Option (Bytes × Bytes × Bytes)
  | [] => none
  | byte :: rest =>
    match matchStamp (byte :: rest) with
    | some stamp => some stamp
    | none => if byte == 10 then none else findStamp rest

/-- `\w+` takes as much as it can and gives bytes back one at a time. -/
def matchKind : Nat → Bytes → Option (Bytes × Bytes × Bytes × Bytes)
  | 0, _ => none
  | length + 1, text =>
    match findStamp (text.drop (length + 1)) with
    | some stamp => some (text.take (length + 1), stamp)
    | none => matchKind length text

def matchHeader : Bytes → Option (Bytes × Bytes × Bytes × Bytes)
  | [] => none
  | byte :: rest =>
    let text := byte :: rest
    let here := if hasPrefix text (utf8 "type=") then
      matchKind ((text.drop 5).takeWhile isWord).length (text.drop 5) else none
    match here with
    | some header => some header
    | none => matchHeader rest

def isKeyByte (byte : UInt8) : Bool := isWord byte || byte == ascii '[' || byte == ascii ']'

def quoteMark : UInt8 := 39

def isDelimiter (byte : UInt8) : Bool := isSpace byte || byte == quoteMark || byte == ascii '('

def isValueByte (byte : UInt8) : Bool := !(isSpace byte || byte == quoteMark || byte == ascii ')')

/-- The quoted alternative comes first; without a closing quote the other one is tried. -/
def matchValue (text : Bytes) : Option Bytes :=
  let inner := (text.drop 1).takeWhile (· != ascii '"')
  if hasPrefix text [ascii '"'] && inner.length + 1 < text.length then
    some (ascii '"' :: inner ++ [ascii '"'])
  else
    let run := text.takeWhile isValueByte
    if run.isEmpty then none else some run

def matchField (text : Bytes) : Option (Bytes × Bytes) :=
  let key := text.takeWhile isKeyByte
  match text.dropWhile isKeyByte with
  | byte :: rest =>
    if !key.isEmpty && byte == ascii '=' then (matchValue rest).map (key, ·) else none
  | [] => none

/-- Every match from left to right. `pending` bytes belong to the last match. -/
def scanFields : Bool → Nat → Bytes → List (Bytes × Bytes)
  | _, _, [] => []
  | _, pending + 1, _ :: rest => scanFields false pending rest
  | atStart, 0, byte :: rest =>
    match (if atStart then matchField (byte :: rest) else none) with
    | some (key, value) => (key, value) :: scanFields false (key.length + value.length) rest
    | none =>
      match (if isDelimiter byte then matchField rest else none) with
      | some (key, value) => (key, value) :: scanFields false (key.length + value.length + 1) rest
      | none => scanFields false 0 rest

def parseRecord (line : Bytes) : Option Record :=
  match matchHeader line with
  | none => none
  | some (kind, sec, ms, serial) =>
    let millis := parseIntSaturating ((ms ++ utf8 "000").take 3)
    some {
      kind
      id := sec ++ ascii '.' :: ms ++ ascii ':' :: serial
      time := Int.bmod (parseIntSaturating sec * 1000 + millis) (2 ^ 64)
      fields := (scanFields true 0 line).foldl (fun map (key, value) => assign key value map) [] }

def val (text : Bytes) : Bytes := trim [ascii '"'] text

def auditString (text : Bytes) : Bytes :=
  if hasPrefix text [ascii '"'] then val text
  else match hexDecode text with
    | some decoded => if decoded.length > 0 then decoded else text
    | none => text

def sessionID (boot text : Bytes) : Bytes :=
  if text == [] || text == utf8 "4294967295" || text == utf8 "-1" then [] else boot ++ ascii ':' :: text

/-- Missing IDs stay unknown rather than being confused with kernel PID 0. -/
def processID (raw : Bytes) (minimum : Int) : Option Int :=
  match parseInt (val raw) 32 with
  | some n => if n < minimum then none else some n
  | none => none

def baseEvent (first : Record) (boot : Bytes) (kind : Kind) : Event :=
  { id := boot ++ ascii ':' :: first.id ++ ascii ':' :: kind.text, time := first.time, kind,
    sessionId := [], user := [], loginUid := [], effectiveUser := [], ip := [], program := [], args := [],
    outcome := [], pid := none, ppid := none }

def sshKind (r : Record) (outcome : Bytes) : Option Kind :=
  if r.kind == utf8 "USER_START" then
    if outcome == utf8 "success" then some .sessionStart else none
  else if r.kind == utf8 "USER_END" then
    if outcome == utf8 "success" then some .sessionEnd else none
  else if r.kind == utf8 "USER_AUTH" then
    if outcome == utf8 "failed" then some .loginFailure else none
  else if r.kind == utf8 "USER_LOGIN" then
    if outcome == utf8 "success" then some .loginSuccess
    else if outcome == utf8 "failed" then some .loginFailure else none
  else none

/-- PAM records from sudo share the login session; only sshd opens and closes SSH sessions. -/
def sshEvent (first : Record) (boot : Bytes) (lookup : Bytes → Bytes) (r : Record) : Option Event :=
  let exe := auditString (r.field "exe")
  if !hasSuffix exe (utf8 "/sshd") && !hasSuffix exe (utf8 "/sshd-session") then none
  else
    (sshKind r (val (r.field "res"))).map fun kind =>
      { baseEvent first boot kind with
        sessionId := sessionID boot (val (r.field "ses"))
        pid := processID (r.field "pid") 1
        ppid := processID (r.field "ppid") 0
        user := auditString (r.field "acct")
        loginUid := val (r.field "auid")
        effectiveUser := lookup (val (r.field "uid"))
        ip := val (r.field "addr")
        program := exe
        outcome := val (r.field "res") }

/-- `^a(\d+)$` -/
def argIndex (key : Bytes) : Option Int :=
  match key with
  | byte :: index =>
    if byte == ascii 'a' && !index.isEmpty && index.all isDigit then some (parseIntSaturating index) else none
  | [] => none

/-- `^a(\d+)\[(\d+)\]$` -/
def chunkIndex (key : Bytes) : Option (Int × Int) :=
  match key with
  | byte :: rest =>
    if byte == ascii 'a' then do
      let (index, rest) ← digitsThen '[' rest
      let (chunk, rest) ← digitsThen ']' rest
      if rest.isEmpty then some (parseIntSaturating index, parseIntSaturating chunk) else none
    else none
  | [] => none

structure ArgMaps where
  args : List (Int × Bytes)
  chunks : List (Int × List (Int × Bytes))

def addArg (maps : ArgMaps) : Bytes × Bytes → ArgMaps
  | (key, value) =>
    match argIndex key with
    | some n => { maps with args := assign n (auditString value) maps.args }
    | none =>
      match chunkIndex key with
      | some (n, c) =>
        let known := (maps.chunks.lookup n).getD []
        { maps with chunks := assign n (assign c (auditString value) known) maps.chunks }
      | none => maps

def sortedValues {α : Type} (map : List (Int × α)) : List α :=
  (map.insertionSort fun first second => first.1 ≤ second.1).map Prod.snd

def isKind (kind : String) (r : Record) : Bool := r.kind == utf8 kind

/-- The arguments of all EXECVE records, chunked ones reassembled, by index. -/
def execArgs (records : List Record) : List Bytes :=
  let fields := (records.filter (isKind "EXECVE")).flatMap Record.fields
  let maps := fields.foldl addArg ⟨[], []⟩
  let args := maps.chunks.foldl (fun args (n, cs) => assign n (sortedValues cs).flatten args) maps.args
  sortedValues args

def execEvent (first : Record) (boot : Bytes) (lookup : Bytes → Bytes) (records : List Record) : Option Event :=
  if !records.any (isKind "EXECVE") then none
  else
    match (records.filter (isKind "SYSCALL")).getLast? with
    | none => none
    | some f =>
      let session := sessionID boot (val (f.field "ses"))
      let uid := val (f.field "auid")
      if session == [] || uid == utf8 "4294967295" || uid == utf8 "-1" then none
      else some { baseEvent first boot .exec with
        sessionId := session
        pid := processID (f.field "pid") 1
        ppid := processID (f.field "ppid") 0
        loginUid := uid
        user := lookup uid
        effectiveUser := lookup (val (f.field "euid"))
        program := auditString (f.field "exe")
        outcome := val (f.field "success")
        args := redact (execArgs records) }

def eventsFor (records : List Record) (boot : Bytes) (lookup : Bytes → Bytes) : List Event :=
  match records with
  | [] => []
  | first :: _ =>
    records.filterMap (sshEvent first boot lookup) ++ (execEvent first boot lookup records).toList

end SshLogger
