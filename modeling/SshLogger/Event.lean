import SshLogger.Policy

/-! The records agents and the server exchange, their JSON form and the
redaction of arguments (`internal/model/event.go`). -/

namespace SshLogger
open Library Library.Bytes

/-- The kinds the server accepts; `unknown` is any other text. -/
inductive Kind
  | loginSuccess | loginFailure | sessionStart | sessionEnd | exec
  | unknown (text : Bytes)
  deriving DecidableEq, Repr

def Kind.text : Kind → Bytes
  | .loginSuccess => utf8 "login_success"
  | .loginFailure => utf8 "login_failure"
  | .sessionStart => utf8 "session_start"
  | .sessionEnd => utf8 "session_end"
  | .exec => utf8 "exec"
  | .unknown text => text

structure Event where
  id : Bytes
  time : Int
  kind : Kind
  sessionId : Bytes
  user : Bytes
  loginUid : Bytes
  effectiveUser : Bytes
  ip : Bytes
  program : Bytes
  args : List Bytes
  outcome : Bytes
  pid : Option Int
  ppid : Option Int
  deriving DecidableEq, Repr

structure Termination where
  id : String
  sessionId : Bytes
  expires : Int
  deriving DecidableEq, Repr

structure TerminationResult where
  id : String
  error : Bytes
  deriving DecidableEq, Repr

structure IngestResponse where
  firewall : Option FirewallPolicy
  accepted : Nat
  terminations : List Termination
  deriving DecidableEq, Repr

structure Batch where
  canFirewall : Bool
  canAllowlist : Bool
  firewallResult : Option FirewallResult
  canTerminate : Bool
  terminationResults : List TerminationResult
  events : List Event
  health : Bytes
  backlog : Int
  dropped : Int
  activeSessions : List Bytes
  deriving DecidableEq, Repr

def mark : Bytes := utf8 "[REDACTED]"

def sensitiveKeys : List Bytes :=
  [utf8 "password", utf8 "passwd", utf8 "token", utf8 "secret", utf8 "api-key", utf8 "api_key",
    utf8 "authorization"]

/-- `strings.ToLower` as far as an ASCII search can see it. The first argument
counts bytes of a character already written. Outside ASCII only U+0130 and
U+212A have an ASCII letter as their lower case; other characters stay. -/
def toLowerFrom : Nat → Bytes → Bytes
  | _, [] => []
  | pending + 1, _ :: rest => toLowerFrom pending rest
  | 0, byte :: rest =>
    if byte == 0xC4 && hasPrefix rest [0xB0] then ascii 'i' :: toLowerFrom 1 rest
    else if byte == 0xE2 && hasPrefix rest [0x84, 0xAA] then ascii 'k' :: toLowerFrom 2 rest
    else (if isUpper byte then byte + 32 else byte) :: toLowerFrom 0 rest

def toLower (text : Bytes) : Bytes := toLowerFrom 0 text

def isSensitive (arg : Bytes) : Bool :=
  let lower := toLower arg
  sensitiveKeys.any (Bytes.contains lower)

/-- The loop of `Redact` with its `hide` flag. -/
def redactFrom : Bool → List Bytes → List Bytes
  | _, [] => []
  | true, _ :: rest => mark :: redactFrom false rest
  | false, a :: rest =>
    if isSensitive a then
      match indexByte (ascii '=') a with
      | some p => (a.take (p + 1) ++ mark) :: redactFrom false rest
      | none =>
        match indexByte (ascii ':') a with
        | some p => (a.take (p + 1) ++ ascii ' ' :: mark) :: redactFrom false rest
        | none =>
          if containsAny a (utf8 " \t\n") then mark :: redactFrom false rest
          else a :: redactFrom true rest
    else a :: redactFrom false rest

def redact (args : List Bytes) : List Bytes := redactFrom false args

@[simp] theorem redactFrom_length (hide : Bool) (args : List Bytes) :
    (redactFrom hide args).length = args.length := by
  induction args generalizing hide with
  | nil => cases hide <;> rfl
  | cons a rest ih =>
    cases hide with
    | true => simp [redactFrom, ih]
    | false =>
      simp only [redactFrom]
      split
      · split
        · simp [ih]
        · split
          · simp [ih]
          · split <;> simp [ih]
      · simp [ih]

@[simp] theorem redact_length (args : List Bytes) : (redact args).length = args.length :=
  redactFrom_length false args

/-- One byte of a JSON string; `<`, `>` and `&` are escaped as well. -/
def escapeByte (byte : UInt8) : Bytes :=
  if byte == ascii '\\' || byte == ascii '"' then [ascii '\\', byte]
  else if byte == 8 then utf8 "\\b"
  else if byte == 12 then utf8 "\\f"
  else if byte == 10 then utf8 "\\n"
  else if byte == 13 then utf8 "\\r"
  else if byte == 9 then utf8 "\\t"
  else if byte < 0x20 || byte == ascii '<' || byte == ascii '>' || byte == ascii '&' then
    utf8 "\\u00" ++ utf8 (String.ofList (Nat.toDigits 16 (byte.toNat / 16) ++ Nat.toDigits 16 (byte.toNat % 16)))
  else [byte]

/-- The body of a JSON string: invalid bytes become `\ufffd`, and U+2028 and
U+2029 are escaped. The first argument counts bytes already dealt with: `true`
copies them and `false` drops them. -/
def quoteFrom : Nat × Bool → Bytes → Bytes
  | _, [] => []
  | (pending + 1, copied), byte :: rest =>
    if copied then byte :: quoteFrom (pending, copied) rest else quoteFrom (pending, copied) rest
  | (0, _), byte :: rest =>
    if byte < 0x80 then escapeByte byte ++ quoteFrom (0, true) rest
    else if byte == 0xE2 && hasPrefix rest [0x80, 0xA8] then utf8 "\\u2028" ++ quoteFrom (2, false) rest
    else if byte == 0xE2 && hasPrefix rest [0x80, 0xA9] then utf8 "\\u2029" ++ quoteFrom (2, false) rest
    else match runeTail byte rest with
      | none => utf8 "\\ufffd" ++ quoteFrom (0, true) rest
      | some more => byte :: quoteFrom (more, true) rest

def quote (text : Bytes) : Bytes := ascii '"' :: quoteFrom (0, true) text ++ [ascii '"']

def commaSeparated : List Bytes → Bytes
  | [] => []
  | [part] => part
  | part :: rest => part ++ ascii ',' :: commaSeparated rest

theorem commaSeparated_length (parts : List Bytes) :
    (commaSeparated parts).length = (parts.map List.length).sum + (parts.length - 1) := by
  fun_induction commaSeparated parts with
  | case1 => rfl
  | case2 part => simp
  | case3 part rest several ih =>
    have positive : 0 < rest.length := List.length_pos_iff.mpr fun none => several none
    simp only [List.length_append, List.length_cons, List.map_cons, List.sum_cons, ih]
    omega

def jsonMember (name : String) (value : Bytes) : Bytes := quote (utf8 name) ++ ascii ':' :: value

namespace Event

/-- `json.Marshal` of an event. -/
def json (e : Event) : Bytes :=
  ascii '{' :: commaSeparated (
    [jsonMember "id" (quote e.id), jsonMember "time" (decimal e.time), jsonMember "kind" (quote e.kind.text),
      jsonMember "session_id" (quote e.sessionId), jsonMember "user" (quote e.user),
      jsonMember "login_uid" (quote e.loginUid), jsonMember "effective_user" (quote e.effectiveUser),
      jsonMember "ip" (quote e.ip), jsonMember "program" (quote e.program),
      jsonMember "args" (ascii '[' :: commaSeparated (e.args.map quote) ++ [ascii ']']),
      jsonMember "outcome" (quote e.outcome)] ++
    (e.pid.map fun pid => jsonMember "pid" (decimal pid)).toList ++
    (e.ppid.map fun ppid => jsonMember "ppid" (decimal ppid)).toList) ++ [ascii '}']

def coerceKind : Kind → Kind
  | .unknown text => .unknown (coerce text)
  | kind => kind

/-- The event read back from its JSON text: every string has lost its invalid bytes. -/
def coerced (e : Event) : Event :=
  { e with
    id := coerce e.id, kind := coerceKind e.kind, sessionId := coerce e.sessionId, user := coerce e.user,
    loginUid := coerce e.loginUid, effectiveUser := coerce e.effectiveUser, ip := coerce e.ip,
    program := coerce e.program, args := e.args.map coerce, outcome := coerce e.outcome }

@[simp] theorem coerced_coerced (e : Event) : e.coerced.coerced = e.coerced := by
  have kind : coerceKind (coerceKind e.kind) = coerceKind e.kind := by
    cases e.kind <;> simp [coerceKind]
  simp [coerced, kind, Function.comp_def]

end Event

end SshLogger
