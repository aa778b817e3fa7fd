import EventAudit.Config.Json
import EventAudit.Failure
import EventAudit.FileTree.Resolve
import EventAudit.Text.Utf8

/-! # Finding the configuration of a project

The configuration file is looked for from the base directory upward. The search
ends at the first directory that holds one, or that is the top of a repository. -/

namespace EventAudit.Config

/-- The name under which a directory holds a configuration file. -/
def fileEntry : RawText := .ofString fileName

/-- The name that marks the top of a repository. -/
def repositoryEntry : RawText := .ofString ".git"

/-- The configuration file in the first of the given directories that has one, not going beyond
the top of a repository. -/
def firstFile? (doesExist : Path → Bool) : List Path → Option Path
  | [] => none
  | directory :: above =>
      if doesExist (directory.join ⟨fileEntry⟩) then some (directory.join ⟨fileEntry⟩)
      else if doesExist (directory.join ⟨repositoryEntry⟩) then none
      else firstFile? doesExist above

/-- The configuration file that governs a directory. -/
def findFile? (doesExist : Path → Bool) (start : Path) : Option Path :=
  firstFile? doesExist start.ancestors

/-- A configuration, and whether it comes from a file. -/
structure Loaded where
  config : Config
  fromFile : Bool
deriving DecidableEq, Repr

/-- Read and check a configuration file. -/
def readFile (tree : FileTree) (path : Path) : Except Failure Config :=
  match tree.read path with
  | .error cause => .error (.unreadableConfig path cause)
  | .ok content =>
      match Text.Utf8.decode? content with
      | none => .error (.undecodableConfig path)
      | some text =>
          match parse text with
          | .error fault => .error (.unparsableConfig path fault)
          | .ok config =>
              match config.validate with
              | .error error => .error (.invalidConfig error)
              | .ok () => .ok config

/-- The configuration that governs a directory, the default one if there is no file. -/
def load (tree : FileTree) (start : Path) : Except Failure Loaded :=
  match findFile? tree.doesExist start with
  | some path => (readFile tree path).map fun config => { config, fromFile := true }
  | none => .ok { config := {}, fromFile := false }

end EventAudit.Config
