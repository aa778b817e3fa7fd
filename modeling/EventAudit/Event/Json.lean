import EventAudit.Event.Registry
import EventAudit.Json.Layout

/-! # The registry as JSON

The full listing shows every field of every record. -/

namespace EventAudit

open Json

def FireCall.layout (call : FireCall) : Layout :=
  .object [("file", .string call.file), ("line", .number call.line),
    ("arity", .option call.arity .number), ("args", .array (call.args.map .string))]

def Conflict.layout (conflict : Conflict) : Layout :=
  .object [("kind", .string conflict.kind.name), ("previous", .string conflict.previous),
    ("current", .string conflict.current)]

def Event.layout (event : Event) : Layout :=
  .object [("declaration_file", .option event.declarationFile .string),
    ("definition_file", .option event.definitionFile .string),
    ("creation_file", .option event.creationFile .string),
    ("declaration", .option event.declaration .string),
    ("definition", .option event.definition .string),
    ("global_name", .option event.globalName .string),
    ("declared_arity", .option event.declaredArity .number),
    ("fire_calls", .array (event.fireCalls.map FireCall.layout)),
    ("conflicts", .array (event.conflicts.map Conflict.layout))]

def Registry.layout (registry : Registry) : Layout :=
  .object (registry.entries.map fun entry => (entry.1, entry.2.layout))

end EventAudit
