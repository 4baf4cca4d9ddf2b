import SshLogger.Event
import SshLogger.PolicyCache

/-! The answer to a batch as JSON text: how the server writes it (`App.ingest` and
`reply` in `server/api.go`) and how the agent reads it (`sendBatch` in `agent/main.go`). -/

namespace SshLogger
open Library Library.Bytes Library.Json

/-- The characters of a stored string. What requests leave in the store was read
from JSON texts, so that it is valid UTF-8. -/
def textOf (stored : Bytes) : String := (String.fromUTF8? ⟨stored.toArray⟩).getD ""

def Termination.value (c : Termination) : Value :=
  .obj [("id", .str c.id), ("session_id", .str (textOf c.sessionId)), ("expires", .int c.expires)]

def responseMembers (nils : NilLists) (r : IngestResponse) : List (String × Value) :=
  (r.firewall.map fun p => ("firewall", Value.obj (policyMembers nils p))).toList ++
  [("accepted", .int r.accepted)] ++
  (if r.terminations.isEmpty then [] else [("terminations", .arr (r.terminations.map Termination.value))])

/-- `json.Encoder` ends a text with a line break. -/
def IngestResponse.body (nils : NilLists) (r : IngestResponse) : Bytes :=
  utf8 (String.ofList (write (.obj (responseMembers nils r)) ++ ['\n']))

/-- `io.LimitReader` -/
def limitReader (limit : Nat) (body : Bytes) : Bytes := body.take limit

def decodeBytes (old : Bytes) : Value → Option Bytes
  | .str value => some (utf8 value)
  | .null => some old
  | _ => none

def decodeTerminationField (c : Termination) : String × Value → Option Termination
  | (key, value) =>
    if isField key "id" then (decodeString c.id value).map fun id => { c with id }
    else if isField key "session_id" then (decodeBytes c.sessionId value).map fun sessionId => { c with sessionId }
    else if isField key "expires" then (decodeInt c.expires value).map fun expires => { c with expires }
    else some c

def decodeTermination : Value → Option Termination
  | .obj members => members.foldlM decodeTerminationField ⟨"", [], 0⟩
  | .null => some ⟨"", [], 0⟩
  | _ => none

def decodePolicy (old : Option FirewallPolicy) : Value → Option (Option FirewallPolicy)
  | .obj members => (members.foldlM decodeField (old.getD zeroPolicy)).map some
  | .null => some none
  | _ => none

/-- The count of the accepted events is not used. -/
def decodeResponseField (r : IngestResponse) : String × Value → Option IngestResponse
  | (key, value) =>
    if isField key "firewall" then (decodePolicy r.firewall value).map fun firewall => { r with firewall }
    else if isField key "accepted" then (decodeInt r.accepted value).map fun accepted => { r with accepted := accepted.toNat }
    else if isField key "terminations" then
      (decodeList decodeTermination value).map fun terminations => { r with terminations }
    else some r

def zeroResponse : IngestResponse := ⟨none, 0, []⟩

def decodeResponse : Value → Option IngestResponse
  | .obj members => members.foldlM decodeResponseField zeroResponse
  | .null => some zeroResponse
  | _ => none

/-- `json.Decoder` reads the first value of a text. An empty text is `io.EOF`,
which is no error here. -/
def decodeAnswer (text : List Char) : Except String IngestResponse :=
  if (skip text).isEmpty then .ok zeroResponse
  else match (read (text.length + 1) text).bind fun first => decodeResponse first.1 with
    | some response => .ok response
    | none => .error "json"

/-- What the agent makes of an answer. Servers write UTF-8: a character can only be
cut off by the limit, and with it the value it belongs to. -/
def sendBatch (status : Nat) (body : Bytes) : Except String IngestResponse :=
  if status != 200 then .error ("HTTP " ++ toString status)
  else match String.fromUTF8? ⟨(limitReader (1 <<< 20) body).toArray⟩ with
    | some text => decodeAnswer text.toList
    | none => .error "json"

end SshLogger
