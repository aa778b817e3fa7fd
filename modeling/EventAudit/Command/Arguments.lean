import EventAudit.Issue.Basic
import EventAudit.Scan.Basic

/-! # The command line

The words of a command line name a command, then its options and the rules to run,
in any order. An option takes its value from the word after it or from behind an
equals sign. A word of two dashes makes all words after it rules.

A value is checked when the next word that is understood follows, or at the end. So
a word that is not understood is reported even when a bad value stands before it. This
stands for the library `clap` and follows its documented behaviour. -/

namespace EventAudit

inductive Command where
  | check (rules : List Rule) (options : ScanOptions)
  | list (json : Bool) (options : ScanOptions)
  | init
deriving DecidableEq, Repr

/-- Why a command line leads to no command. Asking for help or for the version is one reason. -/
inductive UsageError where
  | help
  | version
  | invalidSubcommand
  | unknownArgument
  | invalidValue
  | argumentConflict
  | tooManyValues
deriving DecidableEq, Repr

namespace Arguments

/-- The words that switch something on. -/
inductive Flag where
  | help
  | version
  | verbose
  | json
deriving DecidableEq, Repr

/-- The options that take a value. -/
inductive Setting where
  | sourceRoot
  | root
  | exclude
deriving DecidableEq, Repr

/-- What a command understands. -/
structure Grammar where
  short : List (Char × Flag) := [('h', .help)]
  long : List (String × Flag) := [("help", .help)]
  settings : List (String × Setting) := []
  /-- Whether plain words are rules; otherwise there are none. -/
  takesRules : Bool := false

/-- What all commands that scan a project understand. -/
def scanning : Grammar where
  short := [('h', .help), ('v', .verbose)]
  long := [("help", .help), ("verbose", .verbose)]
  settings := [("source-root", .sourceRoot), ("root", .root), ("exclude", .exclude)]

def checkGrammar : Grammar :=
  { scanning with takesRules := true }

def listGrammar : Grammar :=
  { scanning with long := ("json", .json) :: scanning.long }

def initGrammar : Grammar := {}

/-- What is understood in front of a command. -/
def frontGrammar : Grammar where
  short := [('h', .help), ('V', .version)]
  long := [("help", .help), ("version", .version)]

/-- What the words so far have given. -/
structure Given where
  rules : List Rule := []
  json : Bool := false
  options : ScanOptions := {}
deriving DecidableEq, Repr

/-- What has been read but not been checked. -/
inductive Pending where
  | nothing
  | rules (words : List String)
  | setting (setting : Setting) (value : Option String)
deriving DecidableEq, Repr

/-- Where reading stands. -/
structure State where
  given : Given := {}
  pending : Pending := .nothing
deriving DecidableEq, Repr

namespace Given

def setFlag (given : Given) : Flag → Except UsageError Given
  | .help => .error .help
  | .version => .error .version
  | .verbose =>
      if given.options.verbose then .error .argumentConflict
      else .ok { given with options := { given.options with verbose := true } }
  | .json => if given.json then .error .argumentConflict else .ok { given with json := true }

/-- Take up the value of an option. The source root may be given once and not be empty. -/
def set (given : Given) (setting : Setting) (value : String) : Except UsageError Given :=
  match setting with
  | .sourceRoot =>
      if given.options.sourceRoot.isSome then .error .argumentConflict
      else if value = "" then .error .invalidValue
      else .ok { given with options := { given.options with sourceRoot := some (.ofString value) } }
  | .root =>
      .ok { given with options := { given.options with roots := given.options.roots ++ [value] } }
  | .exclude =>
      .ok { given with
        options := { given.options with excludes := given.options.excludes ++ [value] } }

def addRules (given : Given) (words : List String) : Except UsageError Given :=
  match words.mapM Rule.ofArgument? with
  | some rules => .ok { given with rules := given.rules ++ rules }
  | none => .error .invalidValue

end Given

namespace State

/-- Check what is pending and take it up. -/
def settle (state : State) : Except UsageError Given :=
  match state.pending with
  | .nothing => .ok state.given
  | .rules words => state.given.addRules words
  | .setting _ none => .error .invalidValue
  | .setting setting (some value) => state.given.set setting value

def flag (state : State) (flag : Flag) : Except UsageError State := do
  return { given := ← (← state.settle).setFlag flag }

def setting (state : State) (setting : Setting) (value : Option String) :
    Except UsageError State := do
  let given ← state.settle
  match value with
  | some value => return { given := ← given.set setting value }
  | none => return { given, pending := .setting setting none }

/-- Read the letters after a single dash. -/
def letters (state : State) (grammar : Grammar) : List Char → Except UsageError State
  | [] => .ok state
  | letter :: rest =>
      match grammar.short.lookup letter with
      | some flag => do (← state.flag flag).letters grammar rest
      | none => .error .unknownArgument

/-- Read a word that starts with two dashes: a name, and a value behind an equals sign. -/
def longWord (state : State) (grammar : Grammar) (text : List Char) : Except UsageError State :=
  let name := String.ofList (text.takeWhile (· != '='))
  let value := (text.dropWhile (· != '=')).tail?.map String.ofList
  match grammar.long.lookup name, grammar.settings.lookup name, value with
  | some _, _, some _ => .error .tooManyValues
  | some flag, _, none => state.flag flag
  | none, some setting, value => state.setting setting value
  | none, none, _ => .error .unknownArgument

/-- Read a word that is a rule, or has to be one. -/
def rule (state : State) (grammar : Grammar) (word : String) : Except UsageError State :=
  if !grammar.takesRules then .error .unknownArgument
  else
    match state.pending with
    | .rules words => .ok { state with pending := .rules (words ++ [word]) }
    | _ => do return { given := ← state.settle, pending := .rules [word] }

/-- Read a word without dashes: the value that an option waits for, or a rule. -/
def plainWord (state : State) (grammar : Grammar) (word : String) : Except UsageError State :=
  match state.pending with
  | .setting setting none => .ok { state with pending := .setting setting (some word) }
  | _ => state.rule grammar word

def word (state : State) (grammar : Grammar) (word : String) : Except UsageError State :=
  match word.toList with
  | '-' :: '-' :: text => state.longWord grammar text
  | ['-'] => state.plainWord grammar word
  | '-' :: letters => state.letters grammar letters
  | _ => state.plainWord grammar word

/-- Read the words of a command, up to their end. -/
def words (state : State) (grammar : Grammar) : List String → Except UsageError Given
  | [] => state.settle
  | word :: rest =>
      if word = "--" then do
        (← rest.foldlM (fun state word => state.rule grammar word) state).settle
      else do (← state.word grammar word).words grammar rest

end State

def commandNames : List String :=
  ["check", "list", "init", "help"]

/-- Read the words after the name of a command. -/
def readCommand (name : String) (words : List String) : Except UsageError Command :=
  if name = "check" then do
    let given ← ({} : State).words checkGrammar words
    return .check given.rules given.options
  else if name = "list" then do
    let given ← ({} : State).words listGrammar words
    return .list given.json given.options
  else if name = "init" then do
    let _ ← ({} : State).words initGrammar words
    return .init
  else
    match words with
    | [] => .error .help
    | [topic] => if commandNames.contains topic then .error .help else .error .invalidSubcommand
    | _ => .error .invalidSubcommand

/-- Read a command line. No words at all give no command. -/
def read : List String → Except UsageError (Option Command)
  | [] => .ok none
  | word :: rest =>
      if commandNames.contains word then (readCommand word rest).map some
      else if word = "--" then
        match rest with
        | [] => .ok none
        | word :: _ =>
            if commandNames.contains word then .error .unknownArgument
            else .error .invalidSubcommand
      else if word.toList.head? = some '-' ∧ word ≠ "-" then
        -- Every word that is understood here ends the reading.
        match ({} : State).word frontGrammar word with
        | .error error => .error error
        | .ok _ => .error .unknownArgument
      else .error .invalidSubcommand

end Arguments
end EventAudit
