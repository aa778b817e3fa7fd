import EventAudit.Config.Basic
import EventAudit.Json.Layout
import EventAudit.Json.Reader

/-! # Configurations as JSON

A configuration is written as an object with all its fields. Reading takes what is
written, and more: fields may be left out, come in any order, or be given as an
array in the order in which they are written. -/

namespace EventAudit

open Json

namespace Markers

def layout (markers : Markers) : Layout :=
  .object [("declaration", .string markers.declaration),
    ("definition", .string markers.definition),
    ("creation", .string markers.creation),
    ("fire", .string markers.fire),
    ("listenerRegistration", .string markers.listenerRegistration),
    ("listenerDefinition", .string markers.listenerDefinition)]

def fields : List (RecordField Markers) :=
  [.of "declaration" Json.string fun markers text => { markers with declaration := text },
    .of "definition" Json.string fun markers text => { markers with definition := text },
    .of "creation" Json.string fun markers text => { markers with creation := text },
    .of "fire" Json.string fun markers text => { markers with fire := text },
    .of "listenerRegistration" Json.string fun markers text =>
      { markers with listenerRegistration := text },
    .of "listenerDefinition" Json.string fun markers text =>
      { markers with listenerDefinition := text }]

def reader : Reader Markers :=
  Json.record "Markers" fields {}

end Markers

namespace Config

def layout (config : Config) : Layout :=
  .object [("roots", .array (config.roots.map .string)),
    ("extensions", .array (config.extensions.map .string)),
    ("excludes", .array (config.excludes.map .string)),
    ("pluginRoot", .string config.pluginRoot),
    ("pluginMarker", .string config.pluginMarker),
    ("markers", config.markers.layout)]

/-- The text of a configuration file. -/
def render (config : Config) : List Char :=
  config.layout.text

def fields : List (RecordField Config) :=
  [.of "roots" (Json.array Json.string) fun config roots => { config with roots },
    .of "extensions" (Json.array Json.string) fun config extensions => { config with extensions },
    .of "excludes" (Json.array Json.string) fun config excludes => { config with excludes },
    .of "pluginRoot" Json.string fun config pluginRoot => { config with pluginRoot },
    .of "pluginMarker" Json.string fun config pluginMarker => { config with pluginMarker },
    .of "markers" Markers.reader fun config markers => { config with markers }]

def reader : Reader Config :=
  Json.record "Config" fields {}

/-- Read the text of a configuration file. -/
def parse (text : List Char) : Except Fault Config :=
  reader.parse text

end Config
end EventAudit
