import EventAudit.Disk

/-! # The program

Runs the command line on a snapshot of the disk, prints what the run says, and writes
the configuration file that it may have created. -/

namespace EventAudit

/-- Whether a variable of the environment is set, and to something other than zero. -/
def environmentFlag? (name : String) : BaseIO (Option Bool) :=
  return (← IO.getEnv name).map (· != "0")

/-- Colours can be forced and forbidden; otherwise they are for terminals. -/
def wantsColours : BaseIO Bool := do
  if (← environmentFlag? "CLICOLOR_FORCE") = some true then return true
  if (← environmentFlag? "NO_COLOR").isSome then return false
  return (← environmentFlag? "CLICOLOR").getD true && (← (← IO.getStdout).isTty)

def UsageError.message : UsageError → String
  | help => Command.usage
  | version => "eventlint 0.1.0\n"
  | invalidSubcommand => "error: unrecognized subcommand\n"
  | unknownArgument => "error: unexpected argument\n"
  | invalidValue => "error: missing or invalid value\n"
  | argumentConflict => "error: an option is given more than once\n"
  | tooManyValues => "error: an option that takes no value is given one\n"

/-- How the system words an error: what happened, then its number. -/
def systemMessage (error : IO.Error) : String :=
  let word (code : UInt32) (details : String) :=
    details.capitalize ++ " (os error " ++ toString code ++ ")"
  match error with
  | .noFileOrDirectory .. => OsError.notFound.message
  | .interrupted _ code details => word code details
  | .alreadyExists _ code details
  | .invalidArgument _ code details
  | .permissionDenied _ code details
  | .resourceExhausted _ code details
  | .inappropriateType _ code details
  | .noSuchThing _ code details => word code details
  | .otherError code details
  | .resourceBusy code details
  | .resourceVanished code details
  | .unsupportedOperation code details
  | .hardwareFault code details
  | .unsatisfiedConstraints code details
  | .illegalOperation code details
  | .protocolError code details
  | .timeExpired code details => word code details
  | .unexpectedEof | .userError _ => toString error

/-- Write the configuration file that a run has added to the tree. -/
def writeChanges (before after : FileTree) : IO Unit :=
  match before.read ⟨Config.fileEntry⟩, after.read ⟨Config.fileEntry⟩ with
  | .error _, .ok content => IO.FS.writeBinFile Config.fileName ⟨content.toArray⟩
  | _, _ => pure ()

/-- Run a command line and give its exit code. -/
def runProgram (words : List String) : IO Nat := do
  let tree ← Disk.snapshot words
  match Command.runLine tree (← wantsColours) words with
  | .error error =>
      if error.code = 0 then IO.print error.message else IO.eprint error.message
      return error.code
  | .ok outcome =>
      match ← (writeChanges tree outcome.tree).toBaseIO with
      | .error error =>
          IO.eprint ("Error: " ++ systemMessage error ++ "\n")
          return ExitStatus.error.code
      | .ok () =>
          IO.print outcome.stdout
          IO.eprint outcome.stderr
          return outcome.status.code

end EventAudit

def main (words : List String) : IO UInt32 :=
  return UInt32.ofNat (← EventAudit.runProgram words)
