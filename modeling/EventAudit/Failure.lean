import EventAudit.Config.Basic
import EventAudit.FileTree.Basic
import EventAudit.Json.Fault
import EventAudit.Text.Quoted

/-! # Failures

A run that fails does so for one of these causes. -/

namespace EventAudit

inductive Failure where
  | unreadableConfig (path : Path) (cause : OsError)
  /-- The configuration file is not UTF-8. -/
  | undecodableConfig (path : Path)
  | unparsableConfig (path : Path) (fault : Json.Fault)
  | invalidConfig (error : ConfigError)
  | unreadableSource (displayPath : String) (cause : OsError)
  /-- There is a configuration file where one was to be created. -/
  | configExists
  | unwritableConfig (cause : OsError)
deriving DecidableEq, Repr

namespace Failure

/-- A path in a message. -/
def quotedPath (path : Path) : String :=
  String.ofList (Text.quotedBytes path.text)

def message : Failure → String
  | unreadableConfig path cause =>
      "Failed to read config file: " ++ quotedPath path ++ ": " ++ cause.message
  | undecodableConfig path =>
      "Failed to read config file: " ++ quotedPath path ++ ": stream did not contain valid UTF-8"
  | unparsableConfig path fault =>
      "Failed to parse config file: " ++ quotedPath path ++ ": " ++ fault.message
  | invalidConfig error => error.message
  | unreadableSource displayPath cause =>
      "Failed to read source file: " ++ displayPath ++ ": " ++ cause.message
  | configExists => Config.fileName ++ " already exists"
  | unwritableConfig cause => cause.message

end Failure
end EventAudit
