import EventAudit.Exclude
import EventAudit.Source.Markers
import EventAudit.Text.Blank

/-! # Configuration

Which files of a project are scanned, what its plugins look like and which markers
it uses. -/

namespace EventAudit

structure Config where
  /-- The directories to scan, seen from the base directory. -/
  roots : List String := ["util", "plugins", "lightship"]
  /-- The endings of the file names to scan. -/
  extensions : List String := [".c", ".h"]
  /-- Patterns and plain parts of display paths that exclude a file. -/
  excludes : List String := ["plugins/core/renderer_gl/ext", "plugins/core/yaml/ext"]
  /-- The directory that holds the plugins. -/
  pluginRoot : String := "plugins"
  /-- The file that makes a directory a plugin. -/
  pluginMarker : String := "CMakeLists.txt"
  markers : Markers := {}
deriving DecidableEq, Repr

inductive ConfigError where
  | emptyMarker (name : String)
  | noExtensions
  | emptyPluginMarker
  | badExclude (exclude : String) (error : PatternError)
deriving DecidableEq, Repr

def ConfigError.message : ConfigError → String
  | emptyMarker name => "Marker '" ++ name ++ "' must not be empty"
  | noExtensions => "'extensions' must list at least one file suffix"
  | emptyPluginMarker => "'pluginMarker' must not be empty"
  | badExclude exclude error =>
      "Invalid glob pattern in 'excludes': \"" ++ exclude ++ "\": " ++ error.message

namespace Config

/-- The name of the file that holds a configuration. -/
def fileName : String := ".eventlintrc.json"

/-- Whether a text holds nothing but blanks. -/
def isBlankText (text : String) : Bool :=
  text.toList.all Text.isBlank

/-- The first thing that is wrong with a configuration. -/
def error? (config : Config) : Option ConfigError :=
  match config.markers.named.find? fun marker => isBlankText marker.2 with
  | some marker => some (.emptyMarker marker.1)
  | none =>
      if config.extensions.isEmpty then some .noExtensions
      else if isBlankText config.pluginMarker then some .emptyPluginMarker
      else
        config.excludes.findSome? fun exclude =>
          (Exclude.error? exclude).map (.badExclude exclude)

def validate (config : Config) : Except ConfigError Unit :=
  match config.error? with
  | some error => .error error
  | none => .ok ()

end Config
end EventAudit
