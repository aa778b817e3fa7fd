import EventAudit.Event.Basic
import EventAudit.Keyed
import EventAudit.Source.Observation

/-! # The registry of events

The registry holds one record per identifier, in ascending order of identifiers.
Observations are folded into it one by one: each touches the record of its own
event only, and there the fields of its own kind only. -/

namespace EventAudit

/-- The records sorted by identifier, each identifier once. -/
structure Registry where
  entries : List (String × Event)
  ordered : entries.Pairwise (·.1 < ·.1)
deriving DecidableEq, Repr

namespace Registry

def empty : Registry where
  entries := []
  ordered := .nil

/-- Change the record of `identifier`, which is created if it is missing. -/
def update (registry : Registry) (identifier : String) (change : Event → Event) : Registry where
  entries := Keyed.update identifier (fun event => change (event.getD {})) registry.entries
  ordered := Keyed.update_ordered identifier _ registry.ordered

/-- Make sure that `identifier` has a record. -/
def touch (registry : Registry) (identifier : String) : Registry :=
  registry.update identifier id

def get? (registry : Registry) (identifier : String) : Option Event :=
  registry.entries.lookup identifier

def identifiers (registry : Registry) : List String :=
  registry.entries.map (·.1)

def size (registry : Registry) : Nat :=
  registry.entries.length

def isEmpty (registry : Registry) : Bool :=
  registry.entries.isEmpty

/-- What an extraction changes in the record of its event. -/
def change (file plugin : String) (line : Nat) : Extraction → Event → Event
  | .declaration identifier arity, event =>
      { event.recordSite .declaration file with
        declaration := some identifier
        declaredArity := arity.or event.declaredArity }
  | .definition identifier, event =>
      { event.recordSite .definition file with definition := some identifier }
  | .creation _ displayName, event =>
      { event.recordSite .creation file with globalName := some (plugin ++ "." ++ displayName) }
  | .fire _ arity args, event =>
      { event with fireCalls := event.fireCalls ++ [{ file, line, arity, args }] }
  | .listenerRegistration, event => event
  | .listenerDefinition, event => event

/-- Fold one observation into the registry. Listeners leave it as it is. -/
def apply (registry : Registry) (file plugin : String) (observation : Observation) : Registry :=
  match observation.extraction.identifier? with
  | some identifier =>
      registry.update identifier (change file plugin observation.line observation.extraction)
  | none => registry

/-- Fold everything observed in one file into the registry. -/
def merge (registry : Registry) (seen : FileObservations) : Registry :=
  seen.observations.foldl (fun registry observation =>
    registry.apply seen.file seen.plugin observation) registry

/-- The registry of the files of a project, in the order given. -/
def ofFiles (files : List FileObservations) : Registry :=
  files.foldl merge empty

end Registry
end EventAudit
