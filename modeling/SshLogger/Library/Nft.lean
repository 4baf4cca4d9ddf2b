import SshLogger.Library.Netip
import Mathlib.Data.List.Forall2

/-! A fragment of the packet filter language of `nft`: scripts of commands that
build tables, chains and rules, how a script is read, what its commands do to the
ruleset of the kernel, and what a chain of rules does to a packet. -/

namespace Library.Nft
open Netip

inductive Token
  | word (text : String)
  | mark (char : Char)
  deriving DecidableEq, Repr

def isMark (char : Char) : Bool := ['{', '}', '(', ')', ',', ';', '|', '&', '\n'].contains char

def isWordChar (char : Char) : Bool := char.isAlphanum || ['_', '.', ':', '-', '='].contains char

def flush (pending : List Char) : List Token := if pending.isEmpty then [] else [.word (String.ofList pending)]

/-- Comments, quotes, variables and sets are not read. -/
def lex : List Char → List Char → Option (List Token)
  | pending, [] => some (flush pending)
  | pending, char :: rest =>
    if char == ' ' then (lex [] rest).map (flush pending ++ ·)
    else if isMark char then (lex [] rest).map (flush pending ++ .mark char :: ·)
    else if isWordChar char then lex (pending ++ [char]) rest
    else none

/-- Commands end with a line or a semicolon, except between braces. -/
def split : Nat → List Token → List Token → List (List Token)
  | _, pending, [] => if pending.isEmpty then [] else [pending]
  | depth, pending, token :: rest =>
    if depth == 0 && (token == .mark '\n' || token == .mark ';') then
      if pending.isEmpty then split 0 [] rest else pending :: split 0 [] rest
    else
      let depth := if token == .mark '{' then depth + 1 else if token == .mark '}' then depth - 1 else depth
      split depth (pending ++ [token]) rest

inductive Flag
  | fin | syn | rst | psh | ack | urg | ecn | cwr
  deriving DecidableEq, Repr

def Flag.all : List Flag := [fin, syn, rst, psh, ack, urg, ecn, cwr]

inductive Match
  | saddr (source : Addr)
  | dport (ports : List Nat)
  | flags (mask value : List Flag)
  deriving DecidableEq, Repr

inductive Verdict
  | accept
  | drop
  deriving DecidableEq, Repr

structure Rule where
  conditions : List Match
  verdict : Verdict
  deriving DecidableEq, Repr

/-- Where a base chain sits, and what becomes of packets that no rule decides. -/
structure Base where
  kind : String
  hook : String
  priority : String
  policy : Verdict
  deriving DecidableEq, Repr

inductive Command
  | addTable (family table : String)
  | deleteTable (family table : String)
  | addChain (family table chain : String) (base : Base)
  | addRule (family table chain : String) (rule : Rule)
  deriving DecidableEq, Repr

def number (text : String) : Option Nat :=
  if text.toList.isEmpty || !text.toList.all Char.isDigit then none else some (Nat.ofDigitChars 10 text.toList 0)

def parseFlag (text : String) : Option Flag :=
  match text with
  | "fin" => some .fin
  | "syn" => some .syn
  | "rst" => some .rst
  | "psh" => some .psh
  | "ack" => some .ack
  | "urg" => some .urg
  | "ecn" => some .ecn
  | "cwr" => some .cwr
  | _ => none

def parseVerdict (text : String) : Option Verdict :=
  match text with
  | "accept" => some .accept
  | "drop" => some .drop
  | _ => none

/-- The ports of a set up to its closing brace, and what follows. -/
def parsePorts : List Token → Option (List Nat × List Token)
  | .word port :: .mark ',' :: rest =>
    match number port, parsePorts rest with
    | some port, some (ports, rest) => some (port :: ports, rest)
    | _, _ => none
  | .word port :: .mark '}' :: rest => (number port).map fun port => ([port], rest)
  | _ => none

/-- One condition of a rule, and what follows: `ip` takes IPv4 addresses only and
`ip6` IPv6 addresses only. -/
def parseMatch : List Token → Option (Match × List Token)
  | .word "ip" :: .word "saddr" :: .word text :: rest =>
    match parseAddr text with
    | some (.v4 octets) => some (.saddr (.v4 octets), rest)
    | _ => none
  | .word "ip6" :: .word "saddr" :: .word text :: rest =>
    match parseAddr text with
    | some (.v6 groups []) => some (.saddr (.v6 groups []), rest)
    | _ => none
  | .word "tcp" :: .word "dport" :: .mark '{' :: rest => (parsePorts rest).map fun (ports, rest) => (.dport ports, rest)
  | .word "tcp" :: .word "flags" :: .mark '&' :: .mark '(' :: .word first :: .mark '|' :: .word second :: .mark ')' ::
      .word "==" :: .word value :: rest =>
    match parseFlag first, parseFlag second, parseFlag value with
    | some first, some second, some value => some (.flags [first, second] [value], rest)
    | _, _, _ => none
  | _ => none

def parseRule : Nat → List Token → Option Rule
  | _, [.word text] => (parseVerdict text).map fun verdict => ⟨[], verdict⟩
  | 0, _ => none
  | fuel + 1, tokens =>
    match parseMatch tokens with
    | none => none
    | some (condition, rest) => (parseRule fuel rest).map fun rule => { rule with conditions := condition :: rule.conditions }

def parseCommand : List Token → Option Command
  | [.word "add", .word "table", .word family, .word table] => some (.addTable family table)
  | [.word "delete", .word "table", .word family, .word table] => some (.deleteTable family table)
  | [.word "add", .word "chain", .word family, .word table, .word chain, .mark '{', .word "type", .word kind,
      .word "hook", .word hook, .word "priority", .word priority, .mark ';', .word "policy", .word policy, .mark ';',
      .mark '}'] => (parseVerdict policy).map fun policy => .addChain family table chain ⟨kind, hook, priority, policy⟩
  | .word "add" :: .word "rule" :: .word family :: .word table :: .word chain :: rest =>
    (parseRule rest.length rest).map (.addRule family table chain)
  | _ => none

def parse (script : List Char) : Option (List Command) :=
  (lex [] script).bind fun tokens => (split 0 [] tokens).mapM parseCommand

structure Chain where
  name : String
  base : Base
  rules : List Rule
  deriving DecidableEq, Repr

structure Table where
  family : String
  name : String
  chains : List Chain
  deriving DecidableEq, Repr

abbrev Ruleset := List Table

def Table.isNamed (t : Table) (family name : String) : Bool := t.family == family && t.name == name

def Ruleset.has (ruleset : Ruleset) (family name : String) : Bool := ruleset.any fun t => t.isNamed family name

def Ruleset.modify (ruleset : Ruleset) (family name : String) (change : Table → Table) : Ruleset :=
  ruleset.map fun t => if t.isNamed family name then change t else t

/-- A command fails when it is about something that is not there. -/
def execute (ruleset : Ruleset) : Command → Option Ruleset
  | .addTable family table =>
    some (if ruleset.has family table then ruleset else ruleset ++ [⟨family, table, []⟩])
  | .deleteTable family table =>
    if ruleset.has family table then some (ruleset.filter fun t => !t.isNamed family table) else none
  | .addChain family table chain base =>
    if !ruleset.has family table then none
    else if ruleset.any fun t => t.isNamed family table && t.chains.any (fun c => c.name == chain) then none
    else some (ruleset.modify family table fun t => { t with chains := t.chains ++ [⟨chain, base, []⟩] })
  | .addRule family table chain rule =>
    if !(ruleset.any fun t => t.isNamed family table && t.chains.any (fun c => c.name == chain)) then none
    else some (ruleset.modify family table fun t => { t with
      chains := t.chains.map fun c => if c.name == chain then { c with rules := c.rules ++ [rule] } else c })

def load (ruleset : Ruleset) : List Command → Option Ruleset
  | [] => some ruleset
  | command :: rest => (execute ruleset command).bind fun ruleset => load ruleset rest

structure Segment where
  dport : Nat
  flags : List Flag
  deriving DecidableEq, Repr

/-- A packet by its source address and, if it is TCP, its port and flags. -/
structure Packet where
  source : Addr
  tcp : Option Segment
  deriving DecidableEq, Repr

def Match.holds (packet : Packet) : Match → Bool
  | .saddr source => packet.source == source
  | .dport ports => packet.tcp.any fun segment => ports.contains segment.dport
  | .flags mask value => packet.tcp.any fun segment =>
    Flag.all.all fun flag => (mask.contains flag && segment.flags.contains flag) == value.contains flag

/-- The first rule whose conditions all hold decides. -/
def verdict (policy : Verdict) (packet : Packet) : List Rule → Verdict
  | [] => policy
  | rule :: rest => if rule.conditions.all (Match.holds packet) then rule.verdict else verdict policy packet rest

/-- A character after which the next token begins. -/
def isEnd (char : Char) : Bool := char == ' ' || isMark char

theorem lex_end {char : Char} (ends : isEnd char = true) (pending text more : List Char) :
    lex pending (text ++ char :: more) =
      (lex pending (text ++ [char])).bind fun tokens => (lex [] more).map (tokens ++ ·) := by
  induction text generalizing pending with
  | nil =>
    simp only [List.nil_append, lex]
    split
    · cases lex [] more <;> simp [flush]
    next other =>
      have mark : isMark char = true := by simpa [isEnd, other] using ends
      rw [if_pos mark, if_pos mark]
      cases lex [] more <;> simp [flush]
  | cons first text ih =>
    simp only [List.cons_append, lex]
    split
    · rw [ih]
      cases lex [] (text ++ [char]) <;> cases lex [] more <;> simp
    · split
      · rw [ih]
        cases lex [] (text ++ [char]) <;> cases lex [] more <;> simp
      · split
        · exact ih _
        · rfl

/-- The tokens of a text that ends with one, and of what comes after it. -/
theorem lex_append {text more : List Char} {tokens others : List Token}
    (closed : (text.getLast?.map isEnd).getD false = true) (first : lex [] text = some tokens)
    (rest : lex [] more = some others) : lex [] (text ++ more) = some (tokens ++ others) := by
  cases last : text.getLast? with
  | none => simp [last] at closed
  | some char =>
    obtain ⟨start, rfl⟩ := List.getLast?_eq_some_iff.mp last
    rw [List.append_assoc, List.singleton_append, lex_end (by simpa using closed), first, rest]
    rfl

theorem lex_word {text : List Char} (plain : ∀ char ∈ text, isWordChar char = true) (pending : List Char)
    (nonempty : pending ++ text ≠ []) {char : Char} {token : List Token}
    (ends : char = ' ' ∧ token = [] ∨ char ≠ ' ' ∧ isMark char = true ∧ token = [.mark char]) :
    lex pending (text ++ [char]) = some (.word (String.ofList (pending ++ text)) :: token) := by
  induction text generalizing pending with
  | nil =>
    have left : pending ≠ [] := by simpa using nonempty
    rcases ends with ⟨rfl, rfl⟩ | ⟨other, mark, rfl⟩
    · simp [lex, flush, left]
    · simp [lex, other, mark, flush, left]
  | cons first text ih =>
    have word := plain first List.mem_cons_self
    have space : first ≠ ' ' := by
      rintro rfl
      exact absurd word (by decide)
    have mark : isMark first = false := by
      cases marked : isMark first with
      | false => rfl
      | true =>
        have shared : ∀ char ∈ ['{', '}', '(', ')', ',', ';', '|', '&', '\n'], isWordChar char = false := by
          intro char member
          simp only [List.mem_cons, List.not_mem_nil, or_false] at member
          rcases member with rfl | rfl | rfl | rfl | rfl | rfl | rfl | rfl | rfl <;> rfl
        have other := shared first (by simpa [isMark] using marked)
        rw [word] at other
        cases other
    have more := ih (fun char member => plain char (List.mem_cons_of_mem _ member)) (pending ++ [first]) (by simp)
    simp [lex, space, mark, word, more]

theorem number_toString (value : Nat) : number (toString value) = some value := by
  have digits : (Nat.toDigits 10 value).all Char.isDigit = true :=
    List.all_eq_true.mpr fun _ member => Nat.isDigit_of_mem_toDigits (by decide) (by decide) member
  simp [number, Nat.toDigits_ne_nil, digits]

def portTokens : List Nat → List Token
  | [] => []
  | [port] => [.word (toString port)]
  | port :: rest => .word (toString port) :: .mark ',' :: portTokens rest

theorem lex_ports {ports : List Nat} (nonempty : ports ≠ []) :
    lex [] ((String.intercalate ", " (ports.map toString)).toList ++ [' ']) = some (portTokens ports) := by
  have plain : ∀ (port : Nat), ∀ char ∈ (toString port).toList, isWordChar char = true := by
    intro port char member
    have decimal : char ∈ Nat.toDigits 10 port := by simpa using member
    have digit := Nat.isDigit_of_mem_toDigits (by decide) (by decide) decimal
    simp [isWordChar, Char.isAlphanum, digit]
  have some_digit : ∀ port : Nat, [] ++ (toString port).toList ≠ [] := by simp [Nat.toDigits_ne_nil]
  induction ports with
  | nil => exact absurd rfl nonempty
  | cons port rest ih =>
    cases rest with
    | nil => simpa [portTokens, Nat.repr_eq_ofList_toDigits] using lex_word (plain port) [] (some_digit port) (Or.inl ⟨rfl, rfl⟩)
    | cons next rest =>
      have first := lex_word (plain port) [] (some_digit port) (Or.inr ⟨by decide, by decide, rfl⟩ : ',' = ' ' ∧ _ ∨ _)
      have more : lex [] (' ' :: ((String.intercalate ", " ((next :: rest).map toString)).toList ++ [' '])) =
          some (portTokens (next :: rest)) := by
        simp only [lex, beq_self_eq_true, if_true]
        rw [ih (by simp)]
        rfl
      have both := lex_append (by simp [isEnd, isMark]) first more
      simpa [portTokens, Nat.repr_eq_ofList_toDigits] using both

theorem parsePorts_tokens {ports : List Nat} (nonempty : ports ≠ []) (rest : List Token) :
    parsePorts (portTokens ports ++ .mark '}' :: rest) = some (ports, rest) := by
  induction ports with
  | nil => exact absurd rfl nonempty
  | cons port more ih =>
    cases more with
    | nil => simp only [portTokens, List.cons_append, List.nil_append, parsePorts, number_toString, Option.map_some]
    | cons next more =>
      have others := ih (by simp)
      simp only [portTokens, List.cons_append, parsePorts, number_toString, others]

/-- How deep in braces the tokens end, when no command ends among them. -/
def depthAfter : Nat → List Token → Option Nat
  | depth, [] => some depth
  | depth, token :: rest =>
    if depth == 0 && (token == .mark '\n' || token == .mark ';') then none
    else depthAfter (if token == .mark '{' then depth + 1 else if token == .mark '}' then depth - 1 else depth) rest

theorem depthAfter_append {depth middle : Nat} {tokens more : List Token} (first : depthAfter depth tokens = some middle) :
    depthAfter depth (tokens ++ more) = depthAfter middle more := by
  induction tokens generalizing depth with
  | nil => exact Option.some.inj first ▸ rfl
  | cons token rest ih =>
    simp only [List.cons_append, depthAfter] at first ⊢
    split at first
    · cases first
    next inside =>
      rw [if_neg inside]
      exact ih first

theorem depthAfter_ports (depth : Nat) (ports : List Nat) : depthAfter depth (portTokens ports) = some depth := by
  induction ports with
  | nil => rfl
  | cons port more ih =>
    cases more with
    | nil => simp [portTokens, depthAfter]
    | cons next more => simpa [portTokens, depthAfter] using ih

theorem split_line {depth : Nat} {tokens pending rest : List Token} (inside : depthAfter depth tokens = some 0)
    (nonempty : pending ++ tokens ≠ []) :
    split depth pending (tokens ++ .mark '\n' :: rest) = (pending ++ tokens) :: split 0 [] rest := by
  induction tokens generalizing depth pending with
  | nil =>
    obtain rfl : depth = 0 := Option.some.inj inside
    rw [List.append_nil] at nonempty
    simp [split, nonempty]
  | cons token tokens ih =>
    simp only [depthAfter] at inside
    split at inside
    · cases inside
    next within =>
      simp only [List.cons_append, split]
      rw [if_neg within, ih inside (by simp)]
      simp

structure IsLine (text : List Char) (command : Command) : Prop where
  single : '\n' ∉ text
  reads : ∃ tokens, lex [] (text ++ ['\n']) = some (tokens ++ [.mark '\n']) ∧ depthAfter 0 tokens = some 0 ∧
    parseCommand tokens = some command

theorem lex_literal {text : String} {chars : List Char} {tokens : List Token} (literal : text = String.ofList chars)
    (lexed : lex [] chars = some tokens) : lex [] text.toList = some tokens := by
  rw [literal, String.toList_ofList]
  exact lexed

theorem IsLine.literal {text : String} {chars : List Char} {command : Command} (literal : text = String.ofList chars)
    (single : '\n' ∉ chars) (tokens : List Token) (reads : lex [] (chars ++ ['\n']) = some (tokens ++ [.mark '\n']))
    (inside : depthAfter 0 tokens = some 0) (parsed : parseCommand tokens = some command) : IsLine text.toList command := by
  rw [literal, String.toList_ofList]
  exact ⟨single, tokens, reads, inside, parsed⟩

/-- A script is read line by line. -/
theorem parse_lines {lines : List (List Char)} {commands : List Command} (each : List.Forall₂ IsLine lines commands) :
    parse (lines.map (· ++ ['\n'])).flatten = some commands := by
  have read : ∃ tokens, lex [] (lines.map (· ++ ['\n'])).flatten = some tokens ∧
      (split 0 [] tokens).mapM parseCommand = some commands := by
    induction each with
    | nil => exact ⟨[], rfl, rfl⟩
    | @cons line command lines commands first _ ih =>
      obtain ⟨others, lexed, parsed⟩ := ih
      obtain ⟨tokens, reads, inside, is_command⟩ := first.reads
      refine ⟨(tokens ++ [.mark '\n']) ++ others, ?_, ?_⟩
      · rw [List.map_cons, List.flatten_cons]
        exact lex_append (by simp [isEnd, isMark]) reads lexed
      · have nonempty : tokens ≠ [] := by
          rintro rfl
          cases is_command
        rw [List.append_assoc, List.singleton_append, split_line inside (by simpa using nonempty), List.nil_append,
          List.mapM_cons, is_command]
        simp [parsed]
  obtain ⟨tokens, lexed, parsed⟩ := read
  rw [parse, lexed]
  exact parsed

theorem IsLine.parses {line : List Char} {command : Command} (is_line : IsLine line command) :
    parse (line ++ ['\n']) = some [command] := by
  simpa using parse_lines (.cons is_line .nil)

structure IsCondition (text : List Char) (condition : Match) : Prop where
  single : '\n' ∉ text
  ends : text.getLast? = some ' '
  reads : ∃ tokens, lex [] text = some tokens ∧ depthAfter 0 tokens = some 0 ∧ tokens ≠ [] ∧
    ∀ rest, parseMatch (tokens ++ rest) = some (condition, rest)

theorem parseRule_match {tokens rest : List Token} {condition : Match} (long : 2 ≤ tokens.length)
    (matched : parseMatch tokens = some (condition, rest)) (fuel : Nat) : parseRule (fuel + 1) tokens =
      (parseRule fuel rest).map fun rule => { rule with conditions := condition :: rule.conditions } := by
  match tokens, long with
  | first :: second :: more, _ => simp [parseRule, matched]

/-- Conditions are read one after the other, up to the verdict. -/
theorem conditions_read {texts : List (List Char)} {conditions : List Match} (each : List.Forall₂ IsCondition texts conditions)
    {ending : List Char} {word : String} {verdict : Verdict} (ends : lex [] ending = some [.word word, .mark '\n'])
    (known : parseVerdict word = some verdict) : ∃ tokens, lex [] (texts.flatten ++ ending) =
      some (tokens ++ [.word word, .mark '\n']) ∧ depthAfter 0 tokens = some 0 ∧ conditions.length ≤ tokens.length ∧
      ∀ fuel, conditions.length ≤ fuel → parseRule fuel (tokens ++ [.word word]) = some ⟨conditions, verdict⟩ := by
  induction each with
  | nil => exact ⟨[], by simpa using ends, rfl, Nat.le_refl _, fun fuel _ => by cases fuel <;> simp [parseRule, known]⟩
  | @cons text condition texts conditions first _ ih =>
    obtain ⟨others, lexed, inside, enough, parsed⟩ := ih
    obtain ⟨tokens, reads, balanced, nonempty, matched⟩ := first.reads
    have some_token : 0 < tokens.length := List.length_pos_iff.mpr nonempty
    refine ⟨tokens ++ others, ?_, ?_, ?_, ?_⟩
    · rw [List.flatten_cons, List.append_assoc, List.append_assoc]
      exact lex_append (by rw [first.ends]; rfl) reads lexed
    · rw [depthAfter_append balanced]
      exact inside
    · simp only [List.length_cons, List.length_append]
      omega
    · intro fuel long
      obtain ⟨fuel, rfl⟩ : ∃ less, fuel = less + 1 := ⟨fuel - 1, by simp at long; omega⟩
      have two : 2 ≤ (tokens ++ (others ++ [Token.word word])).length := by
        simp only [List.length_append, List.length_singleton]
        omega
      rw [List.append_assoc, parseRule_match two (matched _), parsed fuel (by simpa using long)]
      rfl

theorem IsLine.rule {family table chain : String} {header : List Char} (single : '\n' ∉ header)
    (closed : header.getLast? = some ' ')
    (head : lex [] header = some [.word "add", .word "rule", .word family, .word table, .word chain])
    {texts : List (List Char)} {conditions : List Match} (each : List.Forall₂ IsCondition texts conditions)
    {ending : List Char} (last : '\n' ∉ ending) {word : String} {verdict : Verdict}
    (ends : lex [] (ending ++ ['\n']) = some [.word word, .mark '\n']) (known : parseVerdict word = some verdict) :
    IsLine (header ++ (texts.flatten ++ ending)) (.addRule family table chain ⟨conditions, verdict⟩) := by
  obtain ⟨tokens, lexed, inside, enough, parsed⟩ := conditions_read each ends known
  refine ⟨?_, [.word "add", .word "rule", .word family, .word table, .word chain] ++ (tokens ++ [.word word]), ?_, ?_, ?_⟩
  · have plain : ∀ text ∈ texts, '\n' ∉ text :=
      ((List.forall₂_and_left _ _).mp (each.imp fun _ _ reads => ⟨reads.single, reads⟩)).1
    simp only [List.mem_append, List.mem_flatten, not_or, not_exists, not_and]
    exact ⟨single, plain, last⟩
  · have both := lex_append (by rw [closed]; rfl) head lexed
    simpa using both
  · have opened : depthAfter 0 [.word "add", .word "rule", .word family, .word table, .word chain] = some 0 := by
      simp [depthAfter]
    rw [depthAfter_append opened, depthAfter_append inside]
    rfl
  · have long : conditions.length ≤ (tokens ++ [Token.word word]).length := by
      simp only [List.length_append]
      omega
    simp only [List.cons_append, List.nil_append, parseCommand, parsed _ long, Option.map_some]

theorem modify_last {others : Ruleset} {t : Table} {family table : String} {change : Table → Table}
    (absent : others.has family table = false) (named : t.isNamed family table = true) :
    (others ++ [t]).modify family table change = others ++ [change t] := by
  have kept : others.modify family table change = others := by
    refine (List.map_congr_left fun other member => ?_).trans (List.map_id _)
    exact if_neg (by simpa using List.any_eq_false.mp absent other member)
  rw [← congrArg (· ++ [change t]) kept]
  simp [Ruleset.modify, named]

theorem execute_addRule {others : Ruleset} {family table chain : String} {base : Base} {rules : List Rule} (rule : Rule)
    (absent : others.has family table = false) :
    execute (others ++ [⟨family, table, [⟨chain, base, rules⟩]⟩]) (.addRule family table chain rule) =
      some (others ++ [⟨family, table, [⟨chain, base, rules ++ [rule]⟩]⟩]) := by
  simp only [execute]
  rw [if_neg (by simp [Table.isNamed]), modify_last absent (by simp [Table.isNamed])]
  simp

theorem load_rules {others : Ruleset} {family table chain : String} {base : Base} (absent : others.has family table = false)
    (rules done : List Rule) : load (others ++ [⟨family, table, [⟨chain, base, done⟩]⟩])
      (rules.map (.addRule family table chain)) = some (others ++ [⟨family, table, [⟨chain, base, done ++ rules⟩]⟩]) := by
  induction rules generalizing done with
  | nil => simp [load]
  | cons rule rest ih => simp [load, execute_addRule rule absent, ih]

/-- A script that makes a table anew replaces that table alone. -/
theorem load_table (ruleset : Ruleset) (family table chain : String) (base : Base) (rules : List Rule) :
    load ruleset ([.addTable family table, .deleteTable family table, .addTable family table,
      .addChain family table chain base] ++ rules.map (.addRule family table chain)) =
      some (ruleset.filter (fun t => !t.isNamed family table) ++ [⟨family, table, [⟨chain, base, rules⟩]⟩]) := by
  obtain ⟨others, others_def⟩ : ∃ others : Ruleset, ruleset.filter (fun t => !t.isNamed family table) = others := ⟨_, rfl⟩
  have absent : others.has family table = false := by
    subst others_def
    simp [Ruleset.has]
  have made : ∃ middle, execute ruleset (.addTable family table) = some middle ∧ middle.has family table = true ∧
      middle.filter (fun t => !t.isNamed family table) = others := by
    simp only [execute]
    split
    next there => exact ⟨ruleset, rfl, there, others_def⟩
    · exact ⟨_, rfl, by simp [Ruleset.has, Table.isNamed], by
      rw [List.filter_append, others_def]
      simp [Table.isNamed]⟩
  obtain ⟨middle, added, there, dropped⟩ := made
  have deleted : execute middle (.deleteTable family table) = some others := by
    simp only [execute, there, if_true, dropped]
  have again : execute others (.addTable family table) = some (others ++ [⟨family, table, []⟩]) := by
    simp [execute, absent]
  have chained : execute (others ++ [⟨family, table, []⟩]) (.addChain family table chain base) =
      some (others ++ [⟨family, table, [⟨chain, base, []⟩]⟩]) := by
    have vacant : (others ++ [(⟨family, table, []⟩ : Table)]).any
        (fun t => t.isNamed family table && t.chains.any fun c => c.name == chain) = false := by
      simp only [List.any_append, Bool.or_eq_false_iff]
      refine ⟨List.any_eq_false.mpr fun t member => ?_, by simp⟩
      simp only [List.any_eq_false.mp absent t member, Bool.false_and, Bool.false_eq_true, not_false_eq_true]
    simp only [execute]
    rw [if_neg (by simp [Ruleset.has, Table.isNamed]), if_neg (by rw [vacant]; decide), modify_last absent (by simp [Table.isNamed])]
    rfl
  simp only [List.cons_append, List.nil_append, load, added, deleted, again, chained, Option.bind_some]
  rw [others_def]
  exact load_rules absent rules []

def Rule.holds (rule : Rule) (packet : Packet) : Prop := rule.conditions.all (Match.holds packet) = true

/-- Rules that all drop: one that holds is enough. -/
theorem verdict_drops {packet : Packet} {rules : List Rule} (drops : ∀ rule ∈ rules, rule.verdict = .drop) :
    verdict .accept packet rules = .drop ↔ ∃ rule ∈ rules, rule.holds packet := by
  induction rules with
  | nil => simp [verdict]
  | cons rule rest ih =>
    have others := ih fun other member => drops other (List.mem_cons_of_mem _ member)
    simp only [verdict, List.mem_cons, exists_eq_or_imp]
    split
    next here => exact ⟨fun _ => Or.inl here, fun _ => drops rule List.mem_cons_self⟩
    next missed => exact others.trans ⟨Or.inr, fun found => found.resolve_left missed⟩

/-- Rules that all accept: the ones after them decide what none of them holds of. -/
theorem verdict_accepts {packet : Packet} {accepts rest : List Rule} (accepting : ∀ rule ∈ accepts, rule.verdict = .accept) :
    verdict .accept packet (accepts ++ rest) = .drop ↔
      (∀ rule ∈ accepts, ¬ rule.holds packet) ∧ verdict .accept packet rest = .drop := by
  induction accepts with
  | nil => simp
  | cons rule more ih =>
    have others := ih fun other member => accepting other (List.mem_cons_of_mem _ member)
    simp only [List.cons_append, verdict, List.forall_mem_cons]
    split
    next here => simp [Rule.holds, here, accepting rule List.mem_cons_self]
    next missed =>
      rw [others]
      exact ⟨fun found => ⟨⟨missed, found.1⟩, found.2⟩, fun found => ⟨found.1.2, found.2⟩⟩

end Library.Nft
