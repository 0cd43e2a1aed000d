import Conformance.Errno
import Conformance.Path.Basic

set_option autoImplicit false

/-! # Errors

What can go wrong, as causes. `IoError` is what the operating system or a sink refuses with;
`Error` says what the run was doing when that happened. The wording of each cause is in one place,
its `message`.
-/

namespace Conformance

/-- Why an operation on a file, a process or a sink was refused. -/
inductive IoError where
  | os (e : Errno)
  /-- A file name held a zero byte. -/
  | zeroInName
  /-- A program name or an argument held a zero byte. -/
  | zeroInArgument
  /-- A file that had to be text was not UTF-8. -/
  | notText
  | other (text : String)
  deriving DecidableEq, Repr

def IoError.message : IoError → String
  | .os e => e.description ++ " (os error " ++ toString e.number ++ ")"
  | .zeroInName => "file name contained an unexpected NUL byte"
  | .zeroInArgument => "nul byte found in provided data"
  | .notText => "stream did not contain valid UTF-8"
  | .other text => text

/-- What went wrong in a run. The first three concern a single case and make it fail; the others
abort the run. -/
inductive Error where
  | spawn (program : Path) (cause : IoError)
  | unreadable (script : Path) (cause : IoError)
  /-- The running process could not be waited for. -/
  | lost (cause : IoError)
  | discovery (directory : Path) (cause : IoError)
  /-- The settings make no sense. -/
  | config (message : String)
  /-- The report could not be written. -/
  | io (cause : IoError)
  /-- A record of the report could not be written. -/
  | json (cause : IoError)
  deriving DecidableEq, Repr

def Error.message : Error → String
  | .spawn program cause =>
    "Failed to launch interpreter '" ++ program.text ++ "': " ++ cause.message
  | .unreadable script cause => "Failed to open file '" ++ script.text ++ "': " ++ cause.message
  | .lost cause => "Lost contact with test process: " ++ cause.message
  | .discovery directory cause =>
    "Cannot list directory '" ++ directory.text ++ "': " ++ cause.message
  | .config message => "Configuration error: " ++ message
  | .io cause => "IO error: " ++ cause.message
  | .json cause => "JSON error: " ++ cause.message

end Conformance
