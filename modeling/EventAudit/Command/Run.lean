import EventAudit.Command.Arguments
import EventAudit.Event.Json
import EventAudit.Issue.Audit
import EventAudit.Issue.Report

/-! # Running a command

A command turns a file tree into the two texts that it prints, a status and the
file tree that it leaves behind. Only the creation of a configuration file changes
the tree. -/

namespace EventAudit

inductive ExitStatus where
  /-- The command did its work and found no issue. -/
  | success
  /-- The command did its work and found issues. -/
  | failure
  /-- The command could not do its work. -/
  | error
deriving DecidableEq, Repr

def ExitStatus.code : ExitStatus → Nat
  | success => 0
  | failure => 1
  | error => 2

/-- What a command leaves behind. -/
structure Outcome where
  status : ExitStatus
  stdout : String
  stderr : String
  tree : FileTree

/-- The issues that the given rules find in a registry, as they are shown; no rules stand for all
rules. -/
def Registry.issues (registry : Registry) (rules : List Rule) : List Issue :=
  Issue.sort (registry.audit (if rules.isEmpty then Rule.all else rules))

/-- The status of a check. -/
def ExitStatus.ofIssues (issues : List Issue) : ExitStatus :=
  if issues.isEmpty then success else failure

/-- The text of a failure. -/
def Failure.render (failure : Failure) : String :=
  "Error: " ++ failure.message ++ "\n"

namespace Command

/-- Scan a project and show the result by `present`. -/
def scanning (tree : FileTree) (colours : Bool) (options : ScanOptions)
    (present : Scan → Registry → ExitStatus × String) : Outcome :=
  let (notices, prepared) := Scan.prepare tree options
  let remarks := if options.verbose then Notice.renderAll colours notices else ""
  match prepared.bind fun scan => (scan.registry tree).map fun registry => (scan, registry) with
  | .error failure =>
      { status := .error, stdout := "", stderr := remarks ++ failure.render, tree }
  | .ok (scan, registry) =>
      let (status, text) := present scan registry
      { status
        stdout := text
        stderr := remarks ++ Report.skipped colours scan.skipped options.verbose
        tree }

def presentCheck (colours : Bool) (rules : List Rule) (scan : Scan) (registry : Registry) :
    ExitStatus × String :=
  let issues := registry.issues rules
  (.ofIssues issues,
    if issues.isEmpty then Report.success colours scan.files.length registry.size
    else Report.issuesText colours issues)

def presentList (json : Bool) (registry : Registry) : ExitStatus × String :=
  (.success,
    if json then String.ofList registry.layout.text ++ "\n" else Report.listing registry)

/-- Create a configuration file with the defaults in the working directory. -/
def createConfig (tree : FileTree) : Except Failure FileTree :=
  if tree.doesExist ⟨Config.fileEntry⟩ then .error .configExists
  else
    (tree.write ⟨Config.fileEntry⟩ (Text.Utf8.encode ({} : Config).render)).mapError
      .unwritableConfig

def run (tree : FileTree) (colours : Bool) : Command → Outcome
  | check rules options => scanning tree colours options (presentCheck colours rules)
  | list json options => scanning tree colours options fun _ => presentList json
  | init =>
      match createConfig tree with
      | .error failure => { status := .error, stdout := "", stderr := failure.render, tree }
      | .ok tree =>
          { status := .success
            stdout := Text.paint colours [.green] Report.successMark ++ " "
              ++ Text.paint colours [.green] ("Created " ++ Config.fileName) ++ "\n"
            stderr := ""
            tree }

/-- What is printed when no command is given. -/
def usage : String :=
  "A fast CLI tool for checking event declaration/definition/fire consistency in C plugin trees\n"
    ++ "\n"
    ++ "Usage: eventlint [COMMAND]\n"
    ++ "\n"
    ++ "Commands:\n"
    ++ "  check  Check events for missing declarations, definitions, creations and arity "
    ++ "mismatches\n"
    ++ "  list   List every event as `identifier: declaration,definition,global_name`\n"
    ++ "  init   Initialize a new .eventlintrc.json configuration file\n"
    ++ "  help   Print this message or the help of the given subcommand(s)\n"
    ++ "\n"
    ++ "Options:\n"
    ++ "  -h, --help     Print help\n"
    ++ "  -V, --version  Print version\n"

/-- Run a command line; without a command the usage is printed. -/
def runLine (tree : FileTree) (colours : Bool) (words : List String) :
    Except UsageError Outcome :=
  (Arguments.read words).map fun command =>
    match command with
    | some command => command.run tree colours
    | none => { status := .success, stdout := usage, stderr := "", tree }

end Command

/-- The code with which a command line that leads to no command ends. -/
def UsageError.code : UsageError → Nat
  | help => 0
  | version => 0
  | _ => 2

end EventAudit
