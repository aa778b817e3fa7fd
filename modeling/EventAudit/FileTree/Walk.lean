import EventAudit.FileTree.Resolve

/-! # Walking a file tree

A walk visits everything at or below a path, a directory before what it holds and
siblings in the order of their names. Links below the start are not followed; the
start itself may be a link to a directory. This stands for the library `walkdir`, sorted
by file name, and follows its documented behaviour. -/

namespace EventAudit

/-- What a walk reports. -/
inductive Visit where
  | file (path : Path)
  /-- A directory that could not be listed. -/
  | unreadable (path : Path) (cause : OsError)
deriving DecidableEq, Repr

namespace Node

mutual

/-- What a walk reports at a node, to which a path leads, and below it. -/
def visits (path : Path) : Node → List Visit
  | file _ => [.file path]
  | lockedFile => [.file path]
  | link _ => []
  | directory children =>
      if FileTree.isTooLong path then [.unreadable path .nameTooLong]
      else visitsBelow path children
  | lockedDirectory =>
      [.unreadable path (if FileTree.isTooLong path then .nameTooLong else .denied)]

/-- What a walk reports at the children of a directory and below them. -/
def visitsBelow (path : Path) : (children : List (RawText × Node)) → List Visit
  | [] => []
  | (name, child) :: rest => visits (path.join ⟨name⟩) child ++ visitsBelow path rest

end

end Node

/-- Everything that a walk from a path reports. A start that is a link to a file is not a
regular file. -/
def FileTree.walk (tree : FileTree) (start : Path) : List Visit :=
  match tree.resolveNode .entry start, tree.resolveNode .target start with
  | .ok (.link _), .ok node => if node.isDirectory then node.visits start else []
  | .ok _, .ok node => node.visits start
  | _, _ => []

end EventAudit
