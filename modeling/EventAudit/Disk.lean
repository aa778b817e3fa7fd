import EventAudit.Command.Run

/-! # Reading file trees from the disk

A run looks at the configuration files above its base directory and at what stands
below its roots. These parts of the disk are copied into a file tree before the run.
Links are stored with the place that they really lead to; a link that leads nowhere
is left out, since no run can tell it from nothing. Here the disk is asked by texts and
answers with texts, so that an entry whose name is not UTF-8 is not found. -/

namespace EventAudit.Disk

/-- Loading adds to a tree. -/
abbrev Load := StateT FileTree IO

/-- The text by which the disk knows a location. -/
def absolute (location : Location) : String :=
  "/" ++ "/".intercalate (location.map RawText.shown)

def locationOf (text : String) : Location :=
  (Path.ofString text).pieces.filter (· ≠ [])

/-- The entry of a directory by which the disk knows a name in it. -/
def entryOf (folder : Location) (name : RawText) : IO.FS.DirEntry :=
  { root := absolute folder, fileName := name.shown }

/-- Put a file into the tree, with its content if that is wanted. -/
def loadFile (wanted : RawText → Bool) (location : Location) : Load Unit := do
  if wanted (location.getLastD []) then
    match ← (IO.FS.readBinFile (absolute location)).toBaseIO with
    | .ok content => modify (·.put location (.file content.toList))
    | .error _ => modify (·.put location .lockedFile)
  else
    let tree ← get
    unless (tree.at? location).isSome do set (tree.put location (.file []))

/-- Put the place that a link leads to into the tree. No link is on the way to it. -/
def loadTarget (wanted : RawText → Bool) (location : Location) : Load Unit := do
  let entry := entryOf location.dropLast (location.getLastD [])
  let .ok metadata ← entry.path.symlinkMetadata.toBaseIO | return
  match metadata.type with
  | .dir => modify (·.makeDirectories location)
  | .file => loadFile wanted location
  | _ => return

/-- Put one entry of a directory into the tree. The result is the location at which a path goes
on after it. -/
def loadEntry (wanted : RawText → Bool) (folder : Location) (name : RawText) :
    Load Location := do
  let location := folder ++ [name]
  let entry := entryOf folder name
  let .ok metadata ← entry.path.symlinkMetadata.toBaseIO | return location
  match metadata.type with
  | .dir => modify (·.makeDirectories location)
  | .file => loadFile wanted location
  | .symlink =>
      let .ok target ← (IO.FS.realPath entry.path).toBaseIO | return location
      loadTarget (fun _ => wanted name) (locationOf target.toString)
      modify (·.put location (.link (.ofString target.toString)))
      return locationOf target.toString
  | .other => return location
  return location

/-- Put everything on the way of a path into the tree. The result is where the path leads. -/
def loadPath (wanted : RawText → Bool) (path : Path) : Load Location := do
  let current := (← get).workingDirectory
  let start := if path.isAbsolute then [] else current
  path.pieces.foldlM (fun current piece =>
    if piece = [] ∨ piece = [Path.dot] then pure current
    else if piece = [Path.dot, Path.dot] then pure current.dropLast
    else loadEntry wanted current piece) start

/-- How deep below a root directories are read. The system takes no longer paths. -/
def depthLimit : Nat := 4096

/-- Put everything below a location into the tree. -/
def loadBelow (wanted : RawText → Bool) : (depth : Nat) → Location → Load Unit
  | 0, _ => pure ()
  | depth + 1, location => do
      unless ((← get).at? location).any Node.isDirectory do return
      match ← (entryOf location []).root.readDir.toBaseIO with
      | .error _ => modify (·.lock location)
      | .ok entries =>
          for entry in entries do
            let name := RawText.ofString entry.fileName
            let reached ← loadEntry wanted location name
            if reached = location ++ [name] then loadBelow wanted depth reached

/-- Put into the tree what the search for a configuration looks at. -/
def loadConfigs (base : Path) : Load Unit := do
  let wanted := fun name => name == Config.fileEntry
  for directory in base.ancestors do
    let _ ← loadPath wanted (directory.join ⟨Config.fileEntry⟩)
    let _ ← loadPath wanted (directory.join ⟨Config.repositoryEntry⟩)

/-- Put into the tree what a configuration tells a scan to look at. -/
def loadRoots (base : Path) (config : Config) : Load Unit := do
  let wanted := fun name =>
    name == Config.fileEntry || SourceFile.hasExtension config.extensions ⟨name⟩
  for root in config.roots do
    loadBelow wanted depthLimit (← loadPath wanted (base.join (.ofString root)))
    for folder in (Path.ofString root).ancestors do
      let _ ← loadPath wanted ((base.join folder).join (.ofString config.pluginMarker))

/-- Put into the tree what a scan looks at. -/
def loadScan (options : ScanOptions) : Load Unit := do
  loadConfigs options.base
  if let .ok loaded := Config.load (← get) options.base then
    loadRoots options.base (loaded.config.adjust options)

/-- Put into the tree what a command looks at. -/
def loadCommand : Command → Load Unit
  | .check _ options => loadScan options
  | .list _ options => loadScan options
  | .init => loadConfigs ⟨[]⟩

/-- The part of the disk that a command line looks at. -/
def snapshot (words : List String) : IO FileTree := do
  let workingDirectory := locationOf (← IO.FS.realPath (← IO.currentDir)).toString
  let tree : FileTree := ({ workingDirectory } : FileTree).makeDirectories workingDirectory
  match Arguments.read words with
  | .ok (some command) => return (← (loadCommand command).run tree).2
  | _ => return tree

end EventAudit.Disk
