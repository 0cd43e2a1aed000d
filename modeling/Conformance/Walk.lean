import Conformance.Path.Component
import Conformance.Report.Reporter

set_option autoImplicit false

/-! # Walking a suite

A run visits a directory and everything below it, entries in the order of their names. A directory
is entered, a script is run and reported, anything else is passed over. The totals of a directory
are handed to the one above it.

What the run asks of the computer it runs on is a `Machine`: the entries of a directory, whether a
path leads to a directory, and the result of running a case. All three may depend on a state that
running a case changes. A `View` is a machine whose files stay as they are; its state only
remembers which cases were run.

A directory can lead to itself through links, so that nothing in a `Machine` bounds the depth of a
walk. The depth is therefore an argument, and a walk that would exceed it says so.
-/

namespace Conformance

/-- The computer that a run takes place on; `σ` is its state. -/
structure Machine (σ : Type) where
  /-- The names of the entries of a directory, in any order. -/
  list : Path → σ → Except IoError (List Bytes)
  /-- Whether a path leads to a directory, links followed. -/
  isDirectory : Path → σ → Bool
  run : TestCase → σ → Except Error Execution × σ

/-- What a run carries along: the state of the machine and the sink of the report. -/
structure Session (σ : Type) where
  state : σ
  sink : Sink

/-- Why a run ends before its end. -/
inductive Stop where
  | failed (e : Error)
  | overflow (o : Overflow)
  /-- The walk went deeper than it was allowed to. -/
  | tooDeep
  deriving DecidableEq, Repr

/-- A computation that uses a session and may stop early; what it has done by then stays done. -/
def Walk (σ α : Type) : Type := Session σ → Except Stop α × Session σ

namespace Walk

variable {σ : Type}

instance : Monad (Walk σ) where
  pure a := fun session => (.ok a, session)
  bind x f := fun session =>
    match x session with
    | (.ok a, session) => f a session
    | (.error stop, session) => (.error stop, session)

def stop {α : Type} (reason : Stop) : Walk σ α := fun session => (.error reason, session)

/-- Goes on with a value, or stops for the reason that an error is. -/
def orStop {ε α : Type} (reason : ε → Stop) : Except ε α → Walk σ α
  | .ok a => pure a
  | .error e => stop (reason e)

def report (emissions : List Emission) : Walk σ Unit := fun session =>
  let (result, sink) := session.sink.performAll emissions
  (result.mapError .failed, { session with sink := sink })

def ask {α : Type} (question : σ → α) : Walk σ α := fun session =>
  (.ok (question session.state), session)

def attempt (m : Machine σ) (c : TestCase) : Walk σ (Except Error Execution) := fun session =>
  let (result, state) := m.run c session.state
  (.ok result, { session with state := state })

/-- Runs one case and reports it; whether it passed. -/
def runCase (m : Machine σ) (s : Settings) (c : TestCase) : Walk σ Bool := do
  let reporter := Reporter.ofSettings s
  report (reporter.started c)
  let result ← attempt m c
  let verdict ← orStop .failed (classifyRun result s.timeout)
  report (reporter.finished c verdict)
  return verdict.isPass

/-- Visits one path: `enter` is what is done with a directory. -/
def visitPath (m : Machine σ) (s : Settings) (enter : Path → Walk σ Totals) (t : Totals)
    (p : Path) : Walk σ Totals := do
  if ← ask (m.isDirectory p) then
    let inner ← enter p
    orStop .overflow (t.add inner)
  else if s.isScript p then
    let passed ← runCase m s ⟨p⟩
    orStop .overflow (t.record passed)
  else
    return t

def visitPaths (m : Machine σ) (s : Settings) (enter : Path → Walk σ Totals) :
    Totals → List Path → Walk σ Totals
  | t, [] => pure t
  | t, p :: rest => do
    let t ← visitPath m s enter t p
    visitPaths m s enter t rest

/-- The paths of the entries of a directory, in the order in which they are visited. -/
def entryPaths (dir : Path) (names : List Bytes) : List Path :=
  (names.mergeSort Path.nameLE).map dir.join

/-- Visits a directory and what is below it, to the given depth. -/
def visit (m : Machine σ) (s : Settings) : Nat → Path → Walk σ Totals
  | 0, _ => stop .tooDeep
  | depth + 1, dir => do
    let names ← orStop (fun cause => .failed (.discovery dir cause)) (← ask (m.list dir))
    visitPaths m s (visit m s depth) Totals.zero (entryPaths dir names)

/-- Runs all scripts below the root directory and reports a summary. -/
def runSuites (m : Machine σ) (s : Settings) (depth : Nat) : Walk σ Totals := do
  let totals ← visit m s depth s.root
  let emissions ← orStop .overflow ((Reporter.ofSettings s).summary totals)
  report emissions
  return totals

end Walk

/-- A file system that stays as it is while a run takes place. -/
structure View where
  list : Path → Except IoError (List Bytes)
  isDirectory : Path → Bool

/-- The machine with these files on which each case has the given result. Its state is the list of
the cases run so far. -/
def View.machine (v : View) (results : TestCase → Except Error Execution) :
    Machine (List TestCase) where
  list p _ := v.list p
  isDirectory p _ := v.isDirectory p
  run c ran := (results c, ran ++ [c])

end Conformance
