import EventAudit.Keyed
import EventAudit.Path

/-! # File trees

A file tree is what the system shows of a disk: the node at the top, with everything
below it, and the working directory. Files and directories can be locked; what they
hold then does not matter, because nobody sees it. A location is the list of names
that lead to a node from the top down. Names are bytes. -/

namespace EventAudit

inductive OsError where
  | notFound
  | denied
  | notDirectory
  | isDirectory
  | nameTooLong
  | tooManyLinks
  | nulInPath
deriving DecidableEq, Repr

def OsError.message : OsError → String
  | notFound => "No such file or directory (os error 2)"
  | denied => "Permission denied (os error 13)"
  | notDirectory => "Not a directory (os error 20)"
  | isDirectory => "Is a directory (os error 21)"
  | nameTooLong => "File name too long (os error 36)"
  | tooManyLinks => "Too many levels of symbolic links (os error 40)"
  | nulInPath => "file name contained an unexpected NUL byte"

abbrev Location := List RawText

/-- What stands at a location. -/
inductive Node where
  | file (content : List UInt8)
  /-- A file that can neither be read nor written. -/
  | lockedFile
  | link (target : Path)
  /-- A directory with what it holds, in ascending order of names. -/
  | directory (children : List (RawText × Node))
  /-- A directory that can neither be listed nor entered. -/
  | lockedDirectory

namespace Node

def isFile : Node → Bool
  | file _ => true
  | lockedFile => true
  | _ => false

def isDirectory : Node → Bool
  | directory _ => true
  | lockedDirectory => true
  | _ => false

/-- What an open directory holds. -/
def children : Node → List (RawText × Node)
  | directory children => children
  | _ => []

/-- What stands at a location below a node. -/
def at? (node : Node) : Location → Option Node
  | [] => some node
  | name :: rest => (node.children.lookup name).bind (·.at? rest)

/-- Change what stands at a location below a node. Missing directories are made, also the one to
be changed. Nothing changes when something else than an open directory is in the way. -/
def update (change : Node → Node) : Location → Node → Node
  | [], node => change node
  | name :: rest, directory children =>
      directory (Keyed.update name (fun child => update change rest (child.getD (directory [])))
        children)
  | _ :: _, node => node

/-- The node without permissions. A link has none of its own. -/
def lock : Node → Node
  | file _ => lockedFile
  | lockedFile => lockedFile
  | link target => link target
  | directory _ => lockedDirectory
  | lockedDirectory => lockedDirectory

end Node

structure FileTree where
  top : Node := .directory []
  workingDirectory : Location := []

namespace FileTree

/-- What stands at a location. -/
def at? (tree : FileTree) (location : Location) : Option Node :=
  tree.top.at? location

/-- Put a node at a location, in place of what was there, with the directories above it. -/
def put (tree : FileTree) (location : Location) (node : Node) : FileTree :=
  { tree with top := tree.top.update (fun _ => node) location }

/-- Make the directories at and above a location that are missing. -/
def makeDirectories (tree : FileTree) (location : Location) : FileTree :=
  { tree with top := tree.top.update id location }

/-- Take all permissions from what stands at a location. -/
def lock (tree : FileTree) (location : Location) : FileTree :=
  { tree with top := tree.top.update Node.lock location }

end FileTree
end EventAudit
