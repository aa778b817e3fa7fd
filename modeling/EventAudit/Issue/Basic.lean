import EventAudit.Event.Basic

/-! # Issues

An issue is one disagreement about an event. It knows the rule that found it, the
place to point at, and what to say there. -/

namespace EventAudit

inductive Severity where
  | error
  | warning
deriving DecidableEq, Repr

def Severity.name : Severity → String
  | error => "error"
  | warning => "warning"

inductive Rule where
  | missingDeclaration
  | missingDefinition
  | uncreatedEvent
  | arityMismatch
  | conflictingProvenance
deriving DecidableEq, Repr

namespace Rule

/-- All rules, in the order in which they run unless some are chosen. -/
def all : List Rule :=
  [missingDeclaration, missingDefinition, uncreatedEvent, arityMismatch, conflictingProvenance]

/-- The name of the rule in a report. -/
def label : Rule → String
  | missingDeclaration => "missing-declaration"
  | missingDefinition => "missing-definition"
  | uncreatedEvent => "uncreated-event"
  | arityMismatch => "arity-mismatch"
  | conflictingProvenance => "conflicting-provenance"

/-- The name by which the rule is chosen on the command line. -/
def argument : Rule → String
  | missingDeclaration => "missing-declaration"
  | missingDefinition => "missing-definition"
  | uncreatedEvent => "uncreated"
  | arityMismatch => "arity"
  | conflictingProvenance => "provenance"

def ofArgument? (argument : String) : Option Rule :=
  all.find? fun rule => rule.argument == argument

/-- The position of the rule in `all`. -/
def rank : Rule → Nat
  | missingDeclaration => 0
  | missingDefinition => 1
  | uncreatedEvent => 2
  | arityMismatch => 3
  | conflictingProvenance => 4

theorem ofArgument?_argument (rule : Rule) : ofArgument? rule.argument = some rule := by
  cases rule <;> decide

def severity : Rule → Severity
  | missingDeclaration => .warning
  | missingDefinition => .warning
  | uncreatedEvent => .error
  | arityMismatch => .error
  | conflictingProvenance => .warning

end Rule

/-- Where the number of arguments that a fire call should pass comes from. -/
inductive ArityReference where
  /-- The suffix of the declaration. -/
  | declaration (file : String)
  /-- The suffix of the call itself. -/
  | ownSuffix
  /-- The first place that fires the event. -/
  | firstCall (file : String) (line : Nat)
deriving DecidableEq, Repr

def ArityReference.text : ArityReference → String
  | declaration file => "declared in " ++ file
  | ownSuffix => "fire macro suffix"
  | firstCall file line => "first fired at " ++ file ++ ":" ++ toString line

inductive Issue where
  | missingDeclaration (event creationFile : String)
  | missingDefinition (event declarationFile : String)
  | uncreatedEvent (event : String) (call : FireCall)
  | arityMismatch (event : String) (call : FireCall) (expected : Nat) (reference : ArityReference)
  | conflictingProvenance (event : String) (conflict : Conflict)
deriving DecidableEq, Repr

namespace Issue

def rule : Issue → Rule
  | missingDeclaration .. => .missingDeclaration
  | missingDefinition .. => .missingDefinition
  | uncreatedEvent .. => .uncreatedEvent
  | arityMismatch .. => .arityMismatch
  | conflictingProvenance .. => .conflictingProvenance

def severity (issue : Issue) : Severity :=
  issue.rule.severity

/-- The identifier of the event concerned. -/
def event : Issue → String
  | missingDeclaration event _ => event
  | missingDefinition event _ => event
  | uncreatedEvent event _ => event
  | arityMismatch event .. => event
  | conflictingProvenance event _ => event

/-- The file to point at. -/
def file : Issue → String
  | missingDeclaration _ creationFile => creationFile
  | missingDefinition _ declarationFile => declarationFile
  | uncreatedEvent _ call => call.file
  | arityMismatch _ call .. => call.file
  | conflictingProvenance _ conflict => conflict.current

/-- The line to point at; only fire calls have one. -/
def line : Issue → Option Nat
  | uncreatedEvent _ call => some call.line
  | arityMismatch _ call .. => some call.line
  | _ => none

def details : Issue → String
  | missingDeclaration .. => "event is created here but never declared"
  | missingDefinition .. => "event is declared here but never defined"
  | uncreatedEvent .. => "event is fired but never created"
  | arityMismatch _ call expected reference =>
      "passes " ++ toString call.args.length ++ " argument(s), expected " ++ toString expected
        ++ " (" ++ reference.text ++ ")"
  | conflictingProvenance _ conflict => conflict.kind.name ++ " also found in " ++ conflict.previous

/-- What to do about the issue, where there is a plain answer. -/
def hint : Issue → Option String
  | conflictingProvenance _ conflict =>
      some ("keep a single " ++ conflict.kind.name ++ " per event")
  | _ => none

/-- Issues are shown by file, then line with the whole file first, then rule, then event. -/
def order (a b : Issue) : Ordering :=
  compareLex (compareOn file) (compareLex (compareOn line)
    (compareLex (compareOn fun issue => issue.rule.rank) (compareOn event))) a b

/-- Sort issues for display; those that tie keep their order. -/
def sort (issues : List Issue) : List Issue :=
  issues.mergeSort fun a b => (order a b).isLE

end Issue
end EventAudit
