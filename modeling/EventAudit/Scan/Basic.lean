import EventAudit.Config.Search
import EventAudit.Event.Registry
import EventAudit.Plugin
import EventAudit.Scan.Files

/-! # Scanning a project

A scan first settles what to look at: the configuration that governs the base
directory, changed by the options of the run, and the files that it selects. Then
it reads these files in their order and folds what they say into a registry. A file
that cannot be read fails the whole scan. -/

namespace EventAudit

/-- The options of a run that scans a project. -/
structure ScanOptions where
  /-- The directory that the roots are seen from; the working directory by default. -/
  sourceRoot : Option Path := none
  /-- The roots to scan in place of the configured ones, if there are any. -/
  roots : List String := []
  /-- Excludes in addition to the configured ones. -/
  excludes : List String := []
  verbose : Bool := false
deriving DecidableEq, Repr

def ScanOptions.base (options : ScanOptions) : Path :=
  options.sourceRoot.getD (.ofString ".")

/-- A configuration as changed by the options of a run. -/
def Config.adjust (config : Config) (options : ScanOptions) : Config :=
  { config with
    roots := if options.roots.isEmpty then config.roots else options.roots
    excludes := config.excludes ++ options.excludes }

/-- Read one file and extract what its lines of code say. -/
def SourceFile.observe (tree : FileTree) (markers : Markers) (plugin : String)
    (file : SourceFile) : Except Failure FileObservations :=
  match tree.read file.path with
  | .error cause => .error (.unreadableSource file.displayPath cause)
  | .ok content =>
      .ok {
        file := file.displayPath
        plugin
        observations := Observation.ofSource markers (Text.Utf8.decodeLossy content) }

/-- What a scan looks at. -/
structure Scan where
  config : Config
  base : Path
  files : List SourceFile
  /-- How many directories could not be listed. -/
  skipped : Nat
deriving DecidableEq, Repr

namespace Scan

/-- What is noticed about a loaded configuration. -/
def loadNotices (loaded : Config.Loaded) : List Notice :=
  if loaded.fromFile then [] else [.noConfig]

/-- The files that a valid configuration selects. -/
def select (tree : FileTree) (base : Path) (config : Config) : List Notice × Scan :=
  let found := Collection.ofRoots tree base config.roots config.extensions
  (found.notices ++ Exclude.notices config.excludes,
    { config
      base
      files := Exclude.thinOut config.excludes found.files
      skipped := found.skipped })

/-- Settle what to look at, and what was noticed on the way. -/
def prepare (tree : FileTree) (options : ScanOptions) : List Notice × Except Failure Scan :=
  match Config.load tree options.base with
  | .error failure => ([], .error failure)
  | .ok loaded =>
      let config := loaded.config.adjust options
      match config.validate with
      | .error error => (loadNotices loaded, .error (.invalidConfig error))
      | .ok () =>
          let (notices, scan) := select tree options.base config
          (loadNotices loaded ++ notices, .ok scan)

/-- Read the files in the order given. -/
def observeAll (tree : FileTree) (plugins : PluginLayout) (markers : Markers)
    (files : List SourceFile) : Except Failure (List FileObservations) :=
  files.mapM fun file =>
    file.observe tree markers (plugins.owner tree.isFile (.ofString file.displayPath))

/-- The plugins of the project. -/
def plugins (scan : Scan) : PluginLayout where
  base := scan.base
  root := scan.config.pluginRoot
  marker := scan.config.pluginMarker

/-- Everything that the files of the project say. -/
def observations (tree : FileTree) (scan : Scan) : Except Failure (List FileObservations) :=
  observeAll tree scan.plugins scan.config.markers scan.files

/-- The events of the project. -/
def registry (tree : FileTree) (scan : Scan) : Except Failure Registry :=
  (scan.observations tree).map Registry.ofFiles

end Scan
end EventAudit
