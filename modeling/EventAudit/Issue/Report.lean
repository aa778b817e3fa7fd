import EventAudit.Event.Registry
import EventAudit.Issue.Basic
import EventAudit.Text.Style

/-! # Reports

The texts that a run prints: the issues with a summary, the success message, the
plain listing of the registry and the remark about paths that were skipped. -/

namespace EventAudit.Report

open Text

def successMark : String := "✓"

def failureMark : String := "✘"

/-- The form of a noun that goes with a count. -/
def plural (count : Nat) (noun : String) : String :=
  if count = 1 then noun else noun ++ "s"

/-- The styles of a severity. -/
def severityStyles : Severity → List Style
  | .error => [.bold, .red]
  | .warning => [.bold, .yellow]

/-- The place an issue points at. -/
def location (issue : Issue) : String :=
  match issue.line with
  | some line => issue.file ++ ":" ++ toString line
  | none => issue.file

/-- A remark below an issue, indented by the width of the line numbers. -/
def remark (colours : Bool) (width : Nat) (styles : List Style) (label text : String) : String :=
  String.ofList (List.replicate width ' ') ++ " " ++ paint colours [.blue] "=" ++ " "
    ++ paint colours styles label ++ " " ++ text ++ "\n"

def issueText (colours : Bool) (width : Nat) (issue : Issue) : String :=
  paint colours (severityStyles issue.severity) issue.severity.name ++ ": \"" ++ issue.event
    ++ "\"  " ++ paint colours [.dimmed, .cyan] issue.rule.label ++ "\n"
    ++ "  " ++ paint colours [.blue] "-->" ++ " " ++ location issue ++ "\n"
    ++ remark colours width [.bold] "note:" issue.details
    ++ (match issue.hint with
      | some hint => remark colours width [.bold, .cyan] "hint:" hint
      | none => "")
    ++ "\n"

/-- The width of the largest line number among the issues. -/
def lineWidth (issues : List Issue) : Nat :=
  match (issues.filterMap Issue.line).max? with
  | some line => (Nat.toDigits 10 line).length
  | none => 1

def errorCount (issues : List Issue) : Nat :=
  issues.countP fun issue => issue.severity == .error

/-- The issues that are no errors. -/
def warningCount (issues : List Issue) : Nat :=
  issues.length - errorCount issues

def summary (colours : Bool) (issues : List Issue) : String :=
  paint colours [.red] failureMark ++ " " ++ toString issues.length ++ " "
    ++ plural issues.length "problem" ++ " (" ++ toString (errorCount issues) ++ " "
    ++ paint colours [.red] (plural (errorCount issues) "error") ++ ", "
    ++ toString (warningCount issues) ++ " "
    ++ paint colours [.yellow] (plural (warningCount issues) "warning") ++ ")\n"

/-- The issues in the order given, and a summary; nothing when there are none. -/
def issuesText (colours : Bool) (issues : List Issue) : String :=
  if issues.isEmpty then ""
  else String.join (issues.map (issueText colours (lineWidth issues))) ++ summary colours issues

/-- The message of a check that found nothing. -/
def success (colours : Bool) (files events : Nat) : String :=
  paint colours [.green] successMark ++ " "
    ++ paint colours [.green] ("Checked " ++ toString files ++ " source " ++ plural files "file"
      ++ ", " ++ toString events ++ " " ++ plural events "event" ++ " - no issues found") ++ "\n"

/-- The remark about paths that could not be read; a verbose run has named them already. -/
def skipped (colours : Bool) (count : Nat) (verbose : Bool) : String :=
  if count > 0 && !verbose then
    paint colours [.bold, .yellow] "warning:" ++ " " ++ toString count
      ++ " path(s) could not be read (use " ++ paint colours [.cyan] "-v" ++ " for details)\n"
  else ""

/-- One line of the listing: the identifier and what the event is declared, defined and known
as. -/
def listingLine (identifier : String) (event : Event) : String :=
  identifier ++ ": " ++ event.declaration.getD "" ++ "," ++ event.definition.getD "" ++ ","
    ++ event.globalName.getD "" ++ "\n"

def listing (registry : Registry) : String :=
  String.join (registry.entries.map fun entry => listingLine entry.1 entry.2)

end EventAudit.Report
