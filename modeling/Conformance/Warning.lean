import Conformance.Error
import Conformance.Time.Stamp

set_option autoImplicit false

/-! # What is logged

Standard output has the report. Beside it a run logs, to standard error, what goes amiss around a
test process and is not an error of the run: a process that cannot be waited for or killed, a stream
that cannot be read or does not come to its end.

It is the logger that decides whether and how a diagnostic is written; it has a filter, which lets
warnings through unless it is set otherwise, and it may use colours. `Diagnostic.line` is what it
writes with that filter and without colours. What is of less weight than a warning is not written by
default, and is left out here. So is the failure of a reader as a task of its own: a reader does not
panic, and none is stopped while it is waited for.
-/

namespace Conformance

/-- What goes amiss around a test process. -/
inductive Warning where
  /-- The process cannot be waited for. -/
  | lostTrack (cause : IoError)
  /-- A stream cannot be read to its end. -/
  | unread (cause : IoError)
  /-- A stream is not at its end half a second after the process. -/
  | stillOpen
  /-- Nor is it after the group was killed once more, and another half second. -/
  | givenUp
  /-- The process was to be killed and cannot be waited for. -/
  | notKilled (cause : IoError)
  deriving DecidableEq, Repr

namespace Warning

def message : Warning → String
  | .lostTrack _ => "Lost track of test process, killing it"
  | .unread _ => "Failed to read test process output"
  | .stillOpen => "Output still open after test process ended, killing its process group"
  | .givenUp => "Giving up on test process output"
  | .notKilled _ => "Failed to kill test process"

/-- The error that a warning names. -/
def error? : Warning → Option String
  | .lostTrack cause => some (Error.lost cause).message
  | .unread cause | .notKilled cause => some cause.message
  | .stillOpen | .givenUp => none

/-- Whether a warning has the number of its process. A reader does not know it. -/
def namesProcess : Warning → Bool
  | .unread _ => false
  | _ => true

end Warning

/-- A warning, the time at which it was logged and the process that it is about. -/
structure Diagnostic where
  time : Nat
  pid : Nat
  warning : Warning
  deriving DecidableEq, Repr

namespace Diagnostic

/-- The message and what it is about. -/
def text (d : Diagnostic) : String :=
  d.warning.message ++
    (if d.warning.namesProcess then " pid=Some(" ++ toString d.pid ++ ")" else "") ++
    match d.warning.error? with
    | some error => " error=" ++ error
    | none => ""

/-- The line that is written. -/
def line (d : Diagnostic) : String :=
  Stamp.text d.time ++ "  WARN harness::testing::runner: " ++ d.text ++ "\n"

end Diagnostic

end Conformance
