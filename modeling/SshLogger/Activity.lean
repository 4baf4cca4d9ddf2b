import SshLogger.Event
import SshLogger.Library.SqliteJson

/-! The display-only classification of commands as routine (`server/activity.go`). -/

namespace SshLogger
open Library Library.Bytes

def programPaths (name : String) : List String :=
  (if ["tr", "cut", "wc"].contains name then ["/usr/lib/cargo/bin/coreutils/" ++ name] else []) ++
    ["", "/bin/", "/usr/bin/"].map fun directory => directory ++ name

structure RoutineRule where
  program : String
  reason : String
  args : List String

def routineRules : List RoutineRule :=
  [⟨"getconf", "환경 확인: 시스템 비트 수", ["LONG_BIT"]⟩, ⟨"lsb_release", "환경 확인: 배포판 정보", ["-a"]⟩] ++
  (["sh", "dash", "bash"].map fun shell => ⟨shell, "환경 확인: 배포판 정보", ["/usr/bin/lsb_release", "-a"]⟩) ++
  [⟨"getopt", "환경 확인: lsb_release 옵션 처리", ["--name", "lsb_release", "-o", "hvidrcas", "-l",
      "help,version,id,description,release,codename,all,short", "--", "-a"]⟩] ++
  ([["[:lower:]", "[:upper:]"], ["[:upper:]", "[:lower:]"]].map fun args => ⟨"tr", "보조 처리: 대소문자 변환", args⟩) ++
  ([" ", "\n", " \n"].map fun arg => ⟨"tr", "보조 처리: 공백 정리", ["-d", arg]⟩) ++
  (["\\n", "\n"].map fun arg => ⟨"tr", "보조 처리: 구분자 변환", [arg, ":"]⟩) ++
  (["-c1", "-c2-"].map fun arg => ⟨"cut", "보조 처리: 문자 추출", [arg]⟩) ++
  [⟨"wc", "보조 처리: 표준 입력 행 수", ["-l"]⟩, ⟨"sed", "보조 처리: 빈 줄 제거", ["/^$/d"]⟩,
    ⟨"awk", "셸 초기화: 활성 옵션 확인", ["$2==\"on\"\x7bprint $1\x7d"]⟩, ⟨"locale", "환경 확인: 로케일", []⟩,
    ⟨"locale-check", "환경 확인: 로케일 검사", ["C.UTF-8"]⟩,
    ⟨"run-parts", "셸 초기화: 프로필 목록 확인",
      ["--list", "--regex", "^[a-zA-Z0-9_][a-zA-Z0-9._-]*\\.sh$", "/etc/profile.d"]⟩,
    ⟨"find", "환경 확인: debuginfod 인증서 목록", ["/etc/debuginfod", "-name", "*.certpath", "-print0"]⟩]

/-- Failed and unknown results and changed or unknown identities stay visible. -/
def isJudged (e : Event) : Bool :=
  e.kind == .exec && e.outcome == utf8 "yes" && e.user != [] && e.effectiveUser != [] && e.user == e.effectiveUser

/-- Why a command is routine, or nothing. All arguments but the first are compared. -/
def routineReason (e : Event) : String :=
  if !isJudged e then ""
  else match routineRules.find? fun rule =>
      (programPaths rule.program).any (fun path => e.program == utf8 path) && e.args.tail == rule.args.map utf8 with
    | some rule => rule.reason
    | none => ""

/-- `json.Marshal` of the arguments, as the store holds them. -/
def storedArgs (e : Event) : Bytes := ascii '[' :: commaSeparated (e.args.map quote) ++ [ascii ']']

/-- `programSQL` -/
def isProgram (name : String) (program : Bytes) : Bool := (programPaths name).any fun path => program == utf8 path

/-- `tailSQL`: two texts are compared. -/
def hasTail (args : List String) (stored : Bytes) : Bool :=
  Sqlite.jsonRemoveFirst stored == Sqlite.jsonArray (args.map utf8)

/-- `routineReasonSQL`, evaluated on the columns of a row. -/
def routineReasonSQL (e : Event) : String :=
  if e.kind != .exec || e.outcome != utf8 "yes" || e.user == [] || e.effectiveUser == [] || e.user != e.effectiveUser then ""
  else if !Sqlite.jsonValid (storedArgs e) then ""
  else if Sqlite.jsonType (storedArgs e) != "array" then ""
  else match routineRules.find? fun rule => isProgram rule.program e.program && hasTail rule.args (storedArgs e) with
    | some rule => rule.reason
    | none => ""

end SshLogger
