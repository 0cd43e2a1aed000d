import Conformance.Verdict
import Conformance.Warning

set_option autoImplicit false

/-! # Supervising a test process

A test process runs in a group of its own, and two readers collect what it writes. Either it ends
before its deadline or the deadline passes first; the first of the two decides the completion, and
nothing that happens later changes it. In both cases the whole group is killed, so that whatever
the process started goes with it. After that the readers are given time until both streams are at
their end: half a second, then the group is killed once more, then half a second again. If a
stream is still open then, both are given up.

The supervisor is a machine that is told what happens, one `Event` at a time, and answers with what
it does, a list of `Action`s. `Supervisor.handle` is one step, `Supervisor.afterAll` a whole run. What
is logged meanwhile is told apart from that, by `Supervisor.warn` and `Supervisor.warnings`.
-/

namespace Conformance

/-- One of the two captured streams. -/
inductive Stream where
  | stdout
  | stderr
  deriving DecidableEq, Repr

inductive Ending where
  | exited (code : Int)
  | signaled (signal : Int)
  deriving DecidableEq, Repr

/-- The completion of a process that ended before its deadline. -/
def Ending.completion : Ending → Completion
  | .exited code => .exited code
  | .signaled signal => .signaled signal

/-- What happens while a process is supervised. -/
inductive Event where
  /-- Something was written to a stream, by any process that holds it. -/
  | wrote (stream : Stream) (bytes : Bytes)
  /-- The last holder of a stream has closed it, or it cannot be read any more. -/
  | closed (stream : Stream)
  /-- Reading a stream has failed; it is closed next, and what was read of it is kept. -/
  | unread (stream : Stream) (cause : IoError)
  /-- The process has ended and its status was collected. -/
  | ended (ending : Ending)
  /-- The process could not be waited for. -/
  | lost (cause : IoError)
  | deadline
  /-- Half a second has passed in which the streams might have been closed. -/
  | grace
  deriving DecidableEq, Repr

inductive Action where
  | killGroup
  /-- Collects the status of the process. -/
  | reap
  deriving DecidableEq, Repr

/-- What was read from one stream. -/
structure Reader where
  bytes : Bytes
  atEnd : Bool
  deriving DecidableEq, Repr

/-- How far the supervision has come. -/
inductive Phase where
  /-- The process and its deadline race. -/
  | racing
  /-- The deadline has won and the process has been killed, but its status is not yet collected. -/
  | reaping
  /-- The process is gone; `graces` half seconds have passed since. -/
  | draining (completion : Completion) (graces : Nat)
  /-- The result stands. -/
  | finished (execution : Execution)
  /-- There will be no result. -/
  | failed (cause : IoError)
  deriving DecidableEq, Repr

/-- The state of a supervision. -/
structure Supervisor where
  phase : Phase
  stdout : Reader
  stderr : Reader
  deriving DecidableEq, Repr

namespace Supervisor

def start : Supervisor := ⟨.racing, ⟨[], false⟩, ⟨[], false⟩⟩

def reader (s : Supervisor) : Stream → Reader
  | .stdout => s.stdout
  | .stderr => s.stderr

def setReader (s : Supervisor) (stream : Stream) (r : Reader) : Supervisor :=
  match stream with
  | .stdout => { s with stdout := r }
  | .stderr => { s with stderr := r }

/-- The result of the supervision, once it stands. -/
def result? (s : Supervisor) : Option (Except Error Execution) :=
  match s.phase with
  | .finished execution => some (.ok execution)
  | .failed cause => some (.error (.lost cause))
  | _ => none

/-- Ends the supervision if the process is gone and both streams are at their end. -/
def settle (s : Supervisor) : Supervisor :=
  match s.phase with
  | .draining completion _ =>
    if s.stdout.atEnd && s.stderr.atEnd then
      { s with phase := .finished ⟨completion, s.stdout.bytes, s.stderr.bytes⟩ }
    else s
  | _ => s

/-- What the readers do with an event. A stream at its end takes nothing more. -/
def read (s : Supervisor) : Event → Supervisor
  | .wrote stream bytes =>
    let r := s.reader stream
    if r.atEnd then s else s.setReader stream { r with bytes := r.bytes ++ bytes }
  | .closed stream => s.setReader stream { s.reader stream with atEnd := true }
  | _ => s

/-- What the supervisor itself does with an event, and what it answers. -/
def decide (s : Supervisor) : Event → Supervisor × List Action
  | .ended ending =>
    match s.phase with
    | .racing => ({ s with phase := .draining ending.completion 0 }, [.killGroup])
    | .reaping => ({ s with phase := .draining .timedOut 0 }, [.reap])
    | _ => (s, [])
  | .lost cause =>
    match s.phase with
    | .racing => ({ s with phase := .failed cause }, [.killGroup, .reap])
    -- The race is over: a killed process that cannot be waited for is as good as gone.
    | .reaping => ({ s with phase := .draining .timedOut 0 }, [])
    | _ => (s, [])
  | .deadline =>
    match s.phase with
    | .racing => ({ s with phase := .reaping }, [.killGroup])
    | _ => (s, [])
  | .grace =>
    match s.phase with
    | .draining completion 0 => ({ s with phase := .draining completion 1 }, [.killGroup])
    | .draining completion _ => ({ s with phase := .finished ⟨completion, [], []⟩ }, [])
    | _ => (s, [])
  | _ => (s, [])

/-- Takes one event. A supervision whose result stands takes no notice. -/
def handle (s : Supervisor) (e : Event) : Supervisor × List Action :=
  match s.result? with
  | some _ => (s, [])
  | none =>
    let (s', actions) := (s.read e).decide e
    (s'.settle, actions)

/-- The state after a list of events, and everything done meanwhile. -/
def afterAll (s : Supervisor) : List Event → Supervisor × List Action
  | [] => (s, [])
  | e :: rest =>
    let (s', actions) := s.handle e
    let (last, more) := s'.afterAll rest
    (last, actions ++ more)

/-- What counts as having happened when nothing more is heard: the process is lost, and its streams
do not come to their ends. -/
def silence (cause : IoError) : List Event := [.lost cause, .grace, .grace]

/-- What is left when nothing more is heard. -/
def abandon (s : Supervisor) (cause : IoError) : Except Error Execution :=
  (s.afterAll (silence cause)).1.result?.getD (.error (.lost cause))

/-! ## What is logged -/

/-- What is logged when the supervisor is told an event. -/
def warn (s : Supervisor) (e : Event) : List Warning :=
  match e, s.phase with
  | .lost cause, .racing => [.lostTrack cause]
  -- The process was killed before, because its deadline has passed or because it was lost.
  | .lost cause, .reaping | .lost cause, .failed _ => [.notKilled cause]
  | .grace, .draining _ 0 => [.stillOpen]
  | .grace, .draining _ _ => [.givenUp]
  -- A reader is stopped when the result stands, and it reads nothing behind the end of its stream.
  | .unread _ _, .finished _ => []
  | .unread stream cause, _ => if (s.reader stream).atEnd then [] else [.unread cause]
  | _, _ => []

/-- What is logged over a list of events. -/
def warnings (s : Supervisor) : List Event → List Warning
  | [] => []
  | e :: rest => s.warn e ++ (s.handle e).1.warnings rest

end Supervisor

end Conformance
