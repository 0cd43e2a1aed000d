import Conformance.Error
import Conformance.Time.Duration

set_option autoImplicit false

/-! # Verdicts

A test passes exactly when its process exits with code zero within its deadline. What it writes
never matters for that. The output of a process that exits with another code, or is killed by a
signal, is kept for the report.
-/

namespace Conformance

/-- How a test process finished. -/
inductive Completion where
  | exited (code : Int)
  /-- It was killed by a signal that was not sent to enforce the deadline. -/
  | signaled (signal : Int)
  /-- Its deadline passed and it was killed. -/
  | timedOut
  deriving DecidableEq, Repr

def Completion.code : Completion → Option Int
  | .exited code => some code
  | _ => none

/-- Everything observed of one test process. -/
structure Execution where
  completion : Completion
  stdout : Bytes
  stderr : Bytes
  deriving DecidableEq, Repr

inductive Failure where
  | timedOut (after : Duration)
  | nonZeroExit (code : Int) (stdout stderr : String)
  | signaled (signal : Int) (stdout stderr : String)
  | spawnFailed (message : String)
  | unreadable (message : String)
  /-- The process could not be waited for. -/
  | interrupted (message : String)
  deriving DecidableEq, Repr

inductive Verdict where
  | passed
  | failed (failure : Failure)
  deriving DecidableEq, Repr

namespace Verdict

def isPass : Verdict → Bool
  | .passed => true
  | .failed _ => false

def failure? : Verdict → Option Failure
  | .passed => none
  | .failed failure => some failure

end Verdict

def classify (execution : Execution) (deadline : Duration) : Verdict :=
  let stdout := Utf8.decode execution.stdout
  let stderr := Utf8.decode execution.stderr
  match execution.completion with
  | .timedOut => .failed (.timedOut deadline)
  | .exited code => if code = 0 then .passed else .failed (.nonZeroExit code stdout stderr)
  | .signaled signal => .failed (.signaled signal stdout stderr)

/-- The verdict on an attempt to run a case. The errors that concern the case alone make it fail;
any other error is handed back. -/
def classifyRun (attempt : Except Error Execution) (deadline : Duration) : Except Error Verdict :=
  match attempt with
  | .ok execution => .ok (classify execution deadline)
  | .error e =>
    match e with
    | .spawn _ _ => .ok (.failed (.spawnFailed e.message))
    | .unreadable _ _ => .ok (.failed (.unreadable e.message))
    | .lost _ => .ok (.failed (.interrupted e.message))
    | _ => .error e

namespace Failure

/-- The diagnosis, in one line unless a path or an error text has several. -/
def message : Failure → String
  | .timedOut after => "Timed out after " ++ after.text
  | .nonZeroExit code _ _ => "Exited with error code " ++ toString code
  | .signaled signal _ _ => "Terminated by signal " ++ toString signal
  | .spawnFailed message | .unreadable message | .interrupted message => message

/-- The captured output that is worth showing: standard output and standard error. -/
def output : Failure → Option (String × String)
  | .nonZeroExit _ stdout stderr | .signaled _ stdout stderr => some (stdout, stderr)
  | _ => none

/-- A short name of the kind of failure, for programs to read. -/
def kind : Failure → String
  | .timedOut _ => "timeout"
  | .nonZeroExit _ _ _ => "nonzero_exit"
  | .signaled _ _ _ => "signaled"
  | .spawnFailed _ => "spawn_error"
  | .unreadable _ => "unreadable"
  | .interrupted _ => "interrupted"

end Failure

end Conformance
