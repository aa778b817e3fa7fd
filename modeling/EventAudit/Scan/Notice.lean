import EventAudit.Config.Basic
import EventAudit.FileTree.Basic
import EventAudit.Text.Style

/-! # Notices

Remarks that a verbose run makes on its way; they change nothing. -/

namespace EventAudit

inductive Notice where
  /-- No configuration file governs the base directory. -/
  | noConfig
  | missingRoot (directory : Path)
  | unreadable (path : Path) (cause : OsError)
  | invalidExclude (exclude : String) (error : PatternError)
deriving DecidableEq, Repr

namespace Notice

def render (colours : Bool) : Notice → String
  | noConfig => "Note: No " ++ Config.fileName ++ " found, using default configuration\n"
  | missingRoot directory =>
      warning ++ " Scan root does not exist: " ++ directory.shown ++ "\n"
  | unreadable path cause =>
      warning ++ " Cannot access path: IO error for operation on " ++ path.shown ++ ": "
        ++ cause.message ++ "\n"
  | invalidExclude exclude error =>
      warning ++ " Invalid exclude pattern '" ++ exclude ++ "': " ++ error.message ++ "\n"
where
  /-- The word that introduces a warning. -/
  warning : String := Text.paint colours [.bold, .yellow] "warning:"

def renderAll (colours : Bool) (notices : List Notice) : String :=
  String.join (notices.map (render colours))

end Notice
end EventAudit
