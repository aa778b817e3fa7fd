import EventAudit.Exclude
import EventAudit.FileTree.Walk
import EventAudit.Scan.Notice

/-! # The source files of a project

A source file has a path by which it is read and a display path, which is what this
path is shown as from the base directory, and names the file everywhere else. Files are
collected root by root, put in the order of their display paths, and then thinned out by
the excludes. -/

namespace EventAudit

structure SourceFile where
  displayPath : String
  path : Path
deriving DecidableEq, Repr

namespace SourceFile

/-- The file at a path. -/
def ofPath (base path : Path) : SourceFile where
  displayPath := (path.asSeenFrom base).shown
  path := path

/-- Files are ordered by display path, then by path. -/
def order (a b : SourceFile) : Ordering :=
  compareLex (compareOn displayPath) (compareOn fun file => file.path.components) a b

/-- Whether two files are the same: both are displayed alike, and their paths have the same
components. -/
def isSame (a b : SourceFile) : Bool :=
  a.displayPath == b.displayPath && a.path.components == b.path.components

/-- Drop the files that repeat the one before them. -/
def dropRepeatsAfter (kept : SourceFile) : List SourceFile → List SourceFile
  | [] => []
  | file :: rest =>
      if kept.isSame file then dropRepeatsAfter kept rest
      else file :: dropRepeatsAfter file rest

def dropRepeats : List SourceFile → List SourceFile
  | [] => []
  | file :: rest => file :: dropRepeatsAfter file rest

/-- Files in their order, each once. -/
def arrange (files : List SourceFile) : List SourceFile :=
  dropRepeats (files.mergeSort fun a b => (order a b).isLE)

/-- Whether the name of a file, as it is shown, has one of the given endings. -/
def hasExtension (extensions : List String) (path : Path) : Bool :=
  match path.fileName? with
  | some name => extensions.any fun ending => ending.toList.isSuffixOf name.shown.toList
  | none => false

end SourceFile

/-- The files that were found below some roots, and what was noticed on the way. -/
structure Collection where
  files : List SourceFile := []
  notices : List Notice := []
deriving DecidableEq, Repr

namespace Collection

/-- The directories that could not be listed. -/
def skipped (collection : Collection) : Nat :=
  collection.notices.countP fun notice =>
    match notice with
    | .unreadable .. => true
    | _ => false

/-- What a visit of a walk comes to. -/
def file? (base : Path) (extensions : List String) : Visit → Option SourceFile
  | .file path =>
      if SourceFile.hasExtension extensions path then some (.ofPath base path) else none
  | .unreadable .. => none

def notice? : Visit → Option Notice
  | .file _ => none
  | .unreadable path cause => some (.unreadable path cause)

/-- What is found below one root. -/
def ofRoot (tree : FileTree) (base : Path) (extensions : List String) (root : String) :
    Collection :=
  let start := base.join (.ofString root)
  if tree.doesExist start then
    { files := (tree.walk start).filterMap (file? base extensions)
      notices := (tree.walk start).filterMap notice? }
  else { notices := [.missingRoot start] }

/-- What is found below all roots, in the order of the files. -/
def ofRoots (tree : FileTree) (base : Path) (roots extensions : List String) : Collection :=
  let found := roots.map (ofRoot tree base extensions)
  { files := SourceFile.arrange (found.flatMap files), notices := found.flatMap notices }

end Collection

namespace Exclude

/-- Drop the files that an exclude covers. Excludes that are no patterns cover nothing. -/
def thinOut (excludes : List String) (files : List SourceFile) : List SourceFile :=
  let excludes := excludes.filterMap fun text => (ofText text).toOption
  files.filter fun file => !excludes.any (·.covers file.displayPath.toList)

/-- What there is to say about the excludes. -/
def notices (excludes : List String) : List Notice :=
  excludes.filterMap fun text => (error? text).map (.invalidExclude text)

end Exclude
end EventAudit
