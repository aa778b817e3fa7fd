/-! # Markers

The names by which a project declares, defines, creates and fires its events and
registers and defines their listeners. -/

namespace EventAudit

structure Markers where
  declaration : String := "EVENT_H"
  definition : String := "EVENT_C"
  creation : String := "event_create"
  fire : String := "EVENT_FIRE"
  listenerRegistration : String := "event_register_listener"
  listenerDefinition : String := "EVENT_LISTENER"
deriving DecidableEq, Repr

/-- The markers with the names under which a configuration gives them. -/
def Markers.named (markers : Markers) : List (String × String) :=
  [("declaration", markers.declaration), ("definition", markers.definition),
    ("creation", markers.creation), ("fire", markers.fire),
    ("listenerRegistration", markers.listenerRegistration),
    ("listenerDefinition", markers.listenerDefinition)]

end EventAudit
