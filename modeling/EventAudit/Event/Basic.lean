/-! # Events

What is known about one event: the files that declare, define and create it, its
names, the arity that its declaration announces and the places that fire it. -/

namespace EventAudit

/-- A place that fires an event. -/
structure FireCall where
  file : String
  line : Nat
  /-- The numeric suffix of the marker, if any. -/
  arity : Option Nat
  args : List String
deriving DecidableEq, Repr

/-- The kinds of places of which an event should have one. -/
inductive SiteKind where
  | declaration
  | definition
  | creation
deriving DecidableEq, Repr

def SiteKind.name : SiteKind → String
  | declaration => "declaration"
  | definition => "definition"
  | creation => "creation"

/-- A file attribution that another file has taken over. -/
structure Conflict where
  kind : SiteKind
  previous : String
  current : String
deriving DecidableEq, Repr

structure Event where
  declarationFile : Option String := none
  definitionFile : Option String := none
  creationFile : Option String := none
  declaration : Option String := none
  definition : Option String := none
  /-- The plugin and the display name of the last creation, joined by a dot. -/
  globalName : Option String := none
  /-- The numeric suffix of the last declaration that has one. -/
  declaredArity : Option Nat := none
  fireCalls : List FireCall := []
  conflicts : List Conflict := []
deriving DecidableEq, Repr

namespace Event

/-- The file that is on record for a kind of site. -/
def fileOf (event : Event) : SiteKind → Option String
  | .declaration => event.declarationFile
  | .definition => event.definitionFile
  | .creation => event.creationFile

def setFile (event : Event) (kind : SiteKind) (file : String) : Event :=
  match kind with
  | .declaration => { event with declarationFile := some file }
  | .definition => { event with definitionFile := some file }
  | .creation => { event with creationFile := some file }

/-- Record `file` for a kind of site. A different file on record before is kept as a conflict. -/
def recordSite (event : Event) (kind : SiteKind) (file : String) : Event :=
  let recorded := event.setFile kind file
  match event.fileOf kind with
  | none => recorded
  | some previous =>
      if previous = file then recorded
      else { recorded with
        conflicts := event.conflicts ++ [{ kind, previous, current := file }] }

end Event
end EventAudit
