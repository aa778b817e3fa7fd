import EventAudit.FileTree.Basic

/-! # Looking up paths in a file tree

A path is looked up name by name: a symbolic link is replaced by its target, `..`
leaves the directory that was really reached, and a locked directory can be seen but
not entered. The lookup keeps the way that it came, since `..` goes back on it. -/

namespace EventAudit

/-- The way from the top to a node: the names and nodes on it, the last first. -/
abbrev Trail := List (RawText × Node)

namespace Trail

def location (trail : Trail) : Location :=
  (trail.map (·.1)).reverse

end Trail

namespace FileTree

/-- How many symbolic links a single path may lead through. -/
def linkLimit : Nat := 40

/-- The longest name in bytes. -/
def nameLimit : Nat := 255

/-- The longest path in bytes. -/
def pathLimit : Nat := 4095

def isTooLong (path : Path) : Bool :=
  pathLimit < path.text.length

/-- What a path is looked up for. -/
inductive Purpose where
  /-- To see what stands there, a link in last place not being followed. -/
  | entry
  /-- To use what stands there, behind all links. -/
  | target
  /-- To write a file. One that is not there counts as empty; a slash after its name is wrong. -/
  | creation
deriving DecidableEq, Repr

/-- The node at the end of a trail. -/
def nodeOn (tree : FileTree) : Trail → Node
  | [] => tree.top
  | step :: _ => step.2

/-- What a name that is missing in a directory comes to. -/
def missing (purpose : Purpose) (trail : Trail) (name : RawText) (isLast : Bool) :
    Except OsError Trail :=
  if nameLimit < name.length then .error .nameTooLong
  else if purpose = .creation ∧ isLast then .ok ((name, .file []) :: trail)
  else .error .notFound

/-- Go on from the end of a trail by the pieces of a path. What to do at a link is told by
`through`, which gets the trail to the directory of the link, its target and the pieces that are
left. -/
def follow (tree : FileTree) (purpose : Purpose)
    (through : Trail → Path → List RawText → Except OsError Trail) (trail : Trail) :
    (pieces : List RawText) → Except OsError Trail
  | [] => .ok trail
  | piece :: rest =>
      match tree.nodeOn trail with
      | .directory children =>
          if piece = [] ∨ piece = [Path.dot] then tree.follow purpose through trail rest
          else if piece = [Path.dot, Path.dot] then tree.follow purpose through trail.tail rest
          else if purpose = .creation ∧ rest ≠ [] ∧ rest.all (· = []) then .error .isDirectory
          else
            match children.lookup piece with
            | none => missing purpose trail piece rest.isEmpty
            | some (.link target) =>
                if purpose = .entry ∧ rest = [] then .ok ((piece, .link target) :: trail)
                else through trail target rest
            | some node => tree.follow purpose through ((piece, node) :: trail) rest
      | .lockedDirectory =>
          if piece = [] then tree.follow purpose through trail rest else .error .denied
      | _ => .error .notDirectory

/-- Go on from the end of a trail, through so many links at most. An absolute target is looked up
from the top. -/
def followWithin (tree : FileTree) (purpose : Purpose) :
    (links : Nat) → Trail → (pieces : List RawText) → Except OsError Trail
  | 0 => tree.follow purpose fun _ _ _ => .error .tooManyLinks
  | links + 1 => tree.follow purpose fun trail target rest =>
      tree.followWithin purpose links (if target.isAbsolute then [] else trail)
        (target.pieces ++ rest)

/-- The names from the top that a path goes by. -/
def piecesFromTop (tree : FileTree) (path : Path) : List RawText :=
  if path.isAbsolute then path.pieces else tree.workingDirectory ++ path.pieces

/-- The way to what a path names. -/
def resolve (tree : FileTree) (purpose : Purpose) (path : Path) : Except OsError Trail :=
  if 0 ∈ path.text then .error .nulInPath
  else if path.text = [] then .error .notFound
  else if isTooLong path then .error .nameTooLong
  else tree.followWithin purpose linkLimit [] (tree.piecesFromTop path)

/-- What stands at the end of a path. -/
def resolveNode (tree : FileTree) (purpose : Purpose) (path : Path) : Except OsError Node :=
  (tree.resolve purpose path).map tree.nodeOn

/-- Whether the path leads to something. -/
def doesExist (tree : FileTree) (path : Path) : Bool :=
  (tree.resolve .target path).isOk

/-- Whether the path leads to a regular file. -/
def isFile (tree : FileTree) (path : Path) : Bool :=
  match tree.resolveNode .target path with
  | .ok node => node.isFile
  | .error _ => false

/-- The bytes of the file that the path leads to. -/
def read (tree : FileTree) (path : Path) : Except OsError (List UInt8) :=
  match tree.resolveNode .target path with
  | .ok (.file content) => .ok content
  | .ok .lockedFile => .error .denied
  | .ok (.directory _) => .error .isDirectory
  | .ok .lockedDirectory => .error .denied
  | .ok (.link _) => .error .notFound
  | .error cause => .error cause

/-- Write a file, in place of one that is there. -/
def write (tree : FileTree) (path : Path) (content : List UInt8) : Except OsError FileTree :=
  match tree.resolve .creation path with
  | .ok trail =>
      match tree.nodeOn trail with
      | .directory _ => .error .isDirectory
      | .lockedDirectory => .error .isDirectory
      | .lockedFile => .error .denied
      | _ => .ok (tree.put trail.location (.file content))
  | .error cause => .error cause

end FileTree
end EventAudit
