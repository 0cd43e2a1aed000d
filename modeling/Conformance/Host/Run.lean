import Conformance.Host.Step
import Conformance.Program
import Conformance.Runner

set_option autoImplicit false

/-! # Running tests in a world

A test process is launched in a world, with its two streams captured, and a `Supervisor` is told
what happens to it while the clock advances. What the supervisor decides is done to the world.

With this a world becomes a `Machine`, on which suites are run, and a `Computer`, on which the whole
program is.
-/

namespace Conformance

structure Watch where
  pid : Nat
  /-- The pipes that the two streams go through. -/
  stdout : Nat
  stderr : Nat
  deadline : Nat
  /-- The time at which half a second has passed once more, when the process is gone. -/
  graceAt : Option Nat
  supervisor : Supervisor
  /-- What has been logged so far, also about other processes. -/
  diagnostics : List Diagnostic

namespace Watch

def grace : Nat := 500000000

def pipe (watch : Watch) : Stream → Nat
  | .stdout => watch.stdout
  | .stderr => watch.stderr

/-- What has happened to a stream. What was written may be read at any time before the end; here it
is read when the last writer is gone. -/
def streamEvents (watch : Watch) (w : World) (stream : Stream) : List Event :=
  let p := watch.pipe stream
  if (watch.supervisor.reader stream).atEnd || w.hasWriter p then []
  else [.wrote stream (w.pipe p).bytes, .closed stream]

/-- Whether the end of the process is still waited for. -/
def awaitsEnd (watch : Watch) : Bool :=
  match watch.supervisor.phase with
  | .racing | .reaping => true
  | _ => false

/-- What has happened to the process itself. -/
def endEvents (watch : Watch) (w : World) : List Event :=
  if watch.awaitsEnd then (w.ending? watch.pid).toList.map .ended else []

/-- What the clock says. -/
def timeEvents (watch : Watch) (w : World) : List Event :=
  (if watch.deadline ≤ w.clock then [.deadline] else []) ++
    (if watch.graceAt.any (· ≤ w.clock) then [.grace] else [])

def events (watch : Watch) (w : World) : List Event :=
  watch.streamEvents w .stdout ++ watch.streamEvents w .stderr ++ watch.endEvents w
    ++ watch.timeEvents w

/-- What an action does to the world. -/
def perform (watch : Watch) (w : World) : Action → World
  | .killGroup => w.signalGroup watch.pid Signal.kill
  | .reap => w

/-- The time of the next half second. -/
def nextGrace (watch : Watch) (w : World) (phase : Phase) : Option Nat :=
  match phase with
  | .draining _ _ =>
    match watch.graceAt with
    | some time => some (if time ≤ w.clock then time + grace else time)
    | none => some (w.clock + grace)
  | _ => none

/-- All that is logged once the supervisor has been told some events at the present time. -/
def noted (watch : Watch) (w : World) (events : List Event) : List Diagnostic :=
  watch.diagnostics ++ (watch.supervisor.warnings events).map (⟨w.clock, watch.pid, ·⟩)

/-- Tells the supervisor what has happened, and does what it answers. -/
def observe (watch : Watch) (w : World) : Watch × World :=
  let (supervisor, actions) := watch.supervisor.afterAll (watch.events w)
  ({ watch with
      supervisor := supervisor, graceAt := watch.nextGrace w supervisor.phase,
      diagnostics := watch.noted w (watch.events w) },
    actions.foldl watch.perform w)

/-- The next time at which something is due. -/
def due (watch : Watch) : Nat := watch.graceAt.getD watch.deadline

/-- Lets time pass until the result stands; `steps` bounds how often the clock advances. -/
def follow : (steps : Nat) → Watch → World → Except Error Execution × World
  | 0, watch, w =>
    (watch.supervisor.abandon (.os .noChild),
      { w with diagnostics := watch.noted w (Supervisor.silence (.os .noChild)) })
  | steps + 1, watch, w =>
    let w := w.advance watch.due
    let (watch, w) := watch.observe w
    match watch.supervisor.result? with
    | some result => (result, { w with diagnostics := watch.diagnostics })
    | none => follow steps watch w

/-- A number of steps after which the result stands: the clock has passed the deadline and two half
seconds by then. -/
def enough (watch : Watch) (w : World) : Nat :=
  (watch.deadline - w.clock + 3 * grace) / World.tick + 8

end Watch

namespace World

/-- Adds a process with captured streams that leads a group of its own. -/
def addTest (w : World) (deadline : Duration) : Watch × World :=
  let diagnostics := w.diagnostics
  let (stdout, w) := w.newPipe
  let (stderr, w) := w.newPipe
  let pid := w.fresh
  let task : Task :=
    { program := [], tool := none, pid := pid, parent := 0, group := pid, cwd := w.cwd,
      environment := w.environment,
      descriptors := [(0, .null), (1, .pipeOutput stdout), (2, .pipeOutput stderr)],
      ignored := [], pending := [], stopped := false, wake := w.clock,
      activity := .leaving [] [] 0 }
  let (pid, w) := { w with captured := [stdout, stderr] }.add task
  (⟨pid, stdout, stderr, w.clock + deadline.toNanos, none, .start, diagnostics⟩, w)

/-- Launches an interpreter on a script, as a process that can be watched. -/
def launchTest (w : World) (interpreter script : Path) (deadline : Duration) :
    Except IoError (Watch × World) :=
  if interpreter.bytes.contains 0 ∨ script.bytes.contains 0 then .error .zeroInArgument
  else
    match Image.search w.tree w.cwd w.searchPath interpreter.bytes
        [interpreter.bytes, script.bytes] with
    | .error e => .error (.os e)
    | .ok image =>
      let (watch, w) := w.addTest deadline
      .ok (watch, w.launchImage watch.pid image)

/-- Follows a process until its result stands. What is left of it then is cleared away. -/
def supervise (watch : Watch) (w : World) : Except Error Execution × World :=
  (Watch.follow (watch.enough w) watch w).map id sweep

/-- Runs an interpreter on a script and watches it. -/
def execute (w : World) (interpreter script : Path) (deadline : Duration) :
    Except Error Execution × World :=
  Runner.execute interpreter (fun w => w.launchTest interpreter script deadline) supervise w

def refusal? (w : World) (script : Path) : Option IoError :=
  match checked script with
  | .error cause => some cause
  | .ok bytes =>
    match w.tree.findReadable w.cwd bytes with
    | .ok _ => none
    | .error e => some (.os e)

/-- Runs a case: its script must be a file that can be opened. -/
def runCase (w : World) (interpreter script : Path) (deadline : Duration) :
    Except Error Execution × World :=
  Runner.run interpreter script (fun w => w.refusal? script)
    (fun w => w.launchTest interpreter script deadline) supervise w

def listDirectory (w : World) (dir : Path) : Except IoError (List Bytes) := do
  let bytes ← checked dir
  (w.tree.list w.cwd bytes).mapError .os

def isDirectory (w : World) (p : Path) : Bool :=
  !p.bytes.contains 0 && w.tree.isDirectory w.cwd p.bytes

def machine (s : Settings) : Machine World where
  list dir w := w.listDirectory dir
  isDirectory p w := w.isDirectory p
  run c w := w.runCase s.interpreter c.path s.timeout

def lookUp (interpreter : Path) (w : World) : Path :=
  Lookup.resolve (fun p => !p.bytes.contains 0 && w.tree.isExecutable w.cwd p.bytes) w.searchPath
    interpreter

/-- The depth of the deepest directory that a path can lead to. -/
def depth : Nat := FileTree.pathLimit + 1

def computer : Computer World where
  lookUp := lookUp
  machine := machine
  depth := depth
  terminal := false
  diagnostics := diagnostics
  line := Diagnostic.line

/-- What the interpreter of directive scripts does with its arguments. -/
def invokeDirectives (w : World) (args : List Bytes) : Transcript World :=
  Script.invoke (fun file w => w.readWhole w.cwd file)
    (fun file w => w.saveNumber w.cwd w.fresh file) args w

end World

end Conformance
