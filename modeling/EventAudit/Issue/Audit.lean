import EventAudit.Event.Registry
import EventAudit.Issue.Basic

/-! # The rules

Each rule looks at one event at a time and reports what it finds in the order of
the registry. -/

namespace EventAudit

namespace Event

/-- An event that is created has to be declared. -/
def missingDeclaration (identifier : String) (event : Event) : List Issue :=
  match event.declaration, event.creationFile with
  | none, some file => [.missingDeclaration identifier file]
  | _, _ => []

/-- An event that is declared has to be defined. -/
def missingDefinition (identifier : String) (event : Event) : List Issue :=
  match event.definition, event.declarationFile with
  | none, some file => [.missingDefinition identifier file]
  | _, _ => []

/-- An event that is fired has to be created; every call is reported. -/
def uncreated (identifier : String) (event : Event) : List Issue :=
  match event.creationFile with
  | none => event.fireCalls.map (.uncreatedEvent identifier)
  | some _ => []

/-- The number of arguments that a call should pass. A suffix of the call that disagrees with its
own arguments comes first, then the suffix of the declaration, then the first call. -/
def expectedArity? (event : Event) (call : FireCall) : Option (Nat × ArityReference) :=
  match call.arity.filter (· ≠ call.args.length) with
  | some arity => some (arity, .ownSuffix)
  | none =>
      match event.declaredArity with
      | some arity => some (arity, .declaration (event.declarationFile.getD ""))
      | none =>
          event.fireCalls.head?.map fun first =>
            (first.args.length, .firstCall first.file first.line)

def arityMismatch? (identifier : String) (event : Event) (call : FireCall) : Option Issue :=
  match event.expectedArity? call with
  | some (expected, reference) =>
      if call.args.length ≠ expected then
        some (.arityMismatch identifier call expected reference)
      else none
  | none => none

/-- A call has to pass the expected number of arguments. -/
def arityMismatches (identifier : String) (event : Event) : List Issue :=
  event.fireCalls.filterMap (event.arityMismatch? identifier)

/-- An event has one declaring, one defining and one creating file. -/
def conflictingProvenance (identifier : String) (event : Event) : List Issue :=
  event.conflicts.map (.conflictingProvenance identifier)

end Event

/-- What a rule says about one event. -/
def Rule.check : Rule → String → Event → List Issue
  | missingDeclaration => Event.missingDeclaration
  | missingDefinition => Event.missingDefinition
  | uncreatedEvent => Event.uncreated
  | arityMismatch => Event.arityMismatches
  | conflictingProvenance => Event.conflictingProvenance

/-- What the rules say about all events, rule by rule in the order given. -/
def Registry.audit (registry : Registry) (rules : List Rule) : List Issue :=
  rules.flatMap fun rule => registry.entries.flatMap fun entry => rule.check entry.1 entry.2

end EventAudit
