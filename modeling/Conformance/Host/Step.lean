import Conformance.Host.Interpret
import Conformance.Host.Streaming

set_option autoImplicit false

/-! # Steps of the world

What one process does in one step, whatever it is doing, and what all of them do while the clock
advances by a tick. If none of them can do anything, the clock jumps to the time when one can.
-/

namespace Conformance

open Shell (Text)

namespace World

/-- How long a step takes: two microseconds. -/
def tick : Nat := 2000

/-! ## Directive scripts -/

/-- Runs the next line of a directive script. -/
def stepDirectives (w : World) (t : Task) (number : Nat) (lines : List (List Char)) : World :=
  match lines with
  | [] => w.set (t.exit 0)
  | line :: rest =>
    let effect := Script.runLine (fun file w => w.saveNumber t.cwd t.pid file) number line w
    let w := effect.files
    let text (s : String) : Bytes := Utf8.encode s
    let after : Activity := match effect.ending with
      | none => .directives (number + 1) rest
      | some ending =>
        .leaving [] (Shell.State.ofBytes (text ending.lastWords)) ending.status
    let w := w.set { t with activity := after, wake := w.clock + effect.pause.toNanos }
    let w := if effect.stdout = "" then w else (w.write t.pid 1 (text effect.stdout)).2
    if effect.stderr = "" then w else (w.write t.pid 2 (text effect.stderr)).2

/-! ## Processes that wait for others -/

/-- The status of a limited process whose own status is not told. -/
def lateStatus : Nat := 124

/-- Ends a process that has limited the time of another one, as that one has ended. -/
def endGuard (w : World) (t : Task) (g : Guard) (ending : Ending) : World :=
  let w := w.reap [g.pid]
  match ending with
  | .exited code =>
    w.exit t.pid (if g.late ∧ ¬ g.limit.keepsStatus then lateStatus else code.toNat)
  | .signaled signal =>
    if ¬ g.late then w.set (t.finish ending)
    else if g.limit.keepsStatus ∨ signal.toNat = Signal.kill then w.exit t.pid (128 + signal.toNat)
    else w.exit t.pid lateStatus

/-- Sends a signal to a process and then to the group of its guard, which does not listen to it. A
stopped process is let go on, so that it notices. -/
def strike (w : World) (t : Task) (g : Guard) (signal : Signal) : World :=
  let send (w : World) (signal : Signal) : World :=
    (w.signal g.pid signal).signalGroup t.group signal
  let w := w.set { t with ignored := signal :: t.ignored, activity := .guarding g }
  let w := send w signal
  if signal = Signal.kill ∨ signal = Signal.resume then w else send w Signal.resume

/-- Goes on guarding a process. A limit of zero is none. -/
def stepGuard (w : World) (t : Task) (g : Guard) : Option World :=
  match w.ending? g.pid with
  | some ending => some (w.endGuard t g ending)
  | none =>
    if g.limit.nanos = 0 ∨ w.clock < g.deadline then none
    else if g.late then
      match g.limit.grace with
      | some (_ + 1) =>
        some (w.strike t { g with limit := { g.limit with grace := none } } Signal.kill)
      | _ => none
    else
      let deadline := w.clock + g.limit.grace.getD 0
      some (w.strike t { g with late := true, deadline := deadline } g.limit.signal)

/-- The next time at which a process has to do something, if nothing happens before. -/
def dueTime? (w : World) (t : Task) : Option Nat :=
  if t.ending?.isSome ∨ t.stopped then none
  else if w.clock < t.wake then some t.wake
  else match t.activity with
    | .guarding g => if w.clock < g.deadline ∧ g.limit.nanos ≠ 0 then some g.deadline else none
    | _ => none

/-- What is said about a program of a series that has ended, the status that it leaves, and whether
the others are still run. -/
def judge (name : Text) (status : Nat) : Ending → Text × Nat × Bool
  | .exited code =>
    if code = 0 then ([], status, true)
    else if code = 255 then
      ("xargs: ".toList ++ name ++ ": exited with status 255; aborting\n".toList, 124, false)
    else ([], 123, true)
  | .signaled signal =>
    let wording := ": terminated by signal " ++ toString signal.toNat ++ "\n"
    ("xargs: ".toList ++ name ++ wording.toList, 125, false)

def stepSeries (w : World) (t : Task) (commands : List (List Text)) (running : Option (Nat × Text))
    (status : Nat) : Option World :=
  let goOn (w : World) (commands : List (List Text)) (running : Option (Nat × Text))
      (status : Nat) : World := w.set { t with activity := .series commands running status }
  match running, commands with
  | some (pid, name), _ =>
    (w.ending? pid).map fun ending =>
      let (said, status, continues) := judge name status ending
      let w := goOn (w.reap [pid]) (if continues then commands else []) none status
      if said = [] then w else w.speak t said
  | none, [] => some (w.exit t.pid status)
  | none, args :: rest =>
    let name := args.head?.getD []
    match w.imageFrom t args with
    | .error e =>
      let said := (cannotRun "xargs" (String.ofList name) e).toList
      some (w.finishWith t [] said (if e = .noEntry then 127 else 126))
    | .ok image =>
      let (pid, w) := w.spawn (t.setHandle 0 (some .null)) (.leaving [] [] 0)
      some (goOn (w.launchImage pid image) rest (some (pid, name)) status)

/-! ## Any process -/

/-- One step of a process; none if it has to wait. -/
def stepTask (w : World) (t : Task) : Option World :=
  if t.stopped ∨ w.clock < t.wake then none
  else match t.activity with
    | .ended _ => none
    | .shell s => w.stepShell t s
    | .directives number lines => some (w.stepDirectives t number lines)
    | .copying c => w.stepCopy t c
    | .gathering g => w.stepGather t g
    | .guarding g => w.stepGuard t g
    | .series commands running status => w.stepSeries t commands running status
    | .repeating text => w.stepRepeating t text
    | .leaving stdout stderr code => some (w.leave t stdout stderr code)

/-- One step of each of the given processes, and whether any of them could do something. -/
def stepAll (w : World) : List Nat → Bool × World
  | [] => (false, w)
  | pid :: rest =>
    match (w.task? pid).bind w.stepTask with
    | some w => (true, (stepAll w rest).2)
    | none => stepAll w rest

/-- The first time, after now, at which a process has to do something. -/
def nextDue (w : World) : Option Nat := (w.tasks.filterMap w.dueTime?).min?

/-- Lets all processes do a step. If none can do anything, time passes until one can, but not
beyond the time `limit`. -/
def advance (w : World) (limit : Nat) : World :=
  let (busy, w) := w.stepAll (w.tasks.map (·.pid))
  let soon := w.clock + tick
  let clock := if busy then soon else max soon (min limit (w.nextDue.getD limit))
  { w with clock := clock }

end World

end Conformance
