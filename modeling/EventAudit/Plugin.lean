import EventAudit.Path

/-! # Plugins

A plugin is a directory below the plugin root that holds a marker file. A file
belongs to the nearest plugin above it, and to no plugin when there is none
between it and the plugin root. -/

namespace EventAudit

/-- What makes a directory a plugin: the name of the directory that holds all plugins, and the
marker file, as seen from a base directory. -/
structure PluginLayout where
  base : Path
  root : String
  marker : String
deriving DecidableEq, Repr

namespace PluginLayout

/-- The owner of files that belong to no plugin. -/
def builtin : String := "builtin"

/-- How many steps up from the directory of a file the plugin root is; of several, the topmost
counts. -/
def stepsToRoot? (layout : PluginLayout) (file : Path) : Option Nat :=
  file.parent?.bind fun folder =>
    (folder.components.findIdx? (·.text = .ofString layout.root)).map fun index =>
      folder.components.length - (index + 1)

/-- Whether a directory is a plugin. -/
def isPlugin (layout : PluginLayout) (isFile : Path → Bool) (directory : Path) : Bool :=
  isFile ((layout.base.join directory).join (.ofString layout.marker))

/-- The plugin that owns a file, whose path is seen from the base directory. -/
def owner (layout : PluginLayout) (isFile : Path → Bool) (file : Path) : String :=
  match layout.stepsToRoot? file with
  | none => builtin
  | some steps =>
      match (file.properAncestors.take steps).find? (layout.isPlugin isFile) with
      | none => builtin
      | some directory => (directory.fileName?.map RawText.shown).getD builtin

end PluginLayout
end EventAudit
