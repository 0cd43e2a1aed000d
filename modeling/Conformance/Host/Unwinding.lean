import Conformance.Host.Redirection

set_option autoImplicit false

/-! # Leaving loops, functions and the shell

A command may give up a part of what is still to be done: the rest of a loop, of a function, of a
script, or everything. What has to be undone stands in the list behind what it holds for, so it is
undone while the list is given up.
-/

namespace Conformance

open Shell (Text)

/-- A process and the state of the shell that it is. -/
structure Interpreter where
  task : Task
  state : Shell.State

namespace Interpreter

/-- Undoes what has to be undone when something is given up. -/
def giveUp (i : Interpreter) : Shell.Todo → Interpreter
  | .restore saved => { i with task := i.task.restore saved }
  | .restoreVariables saved => { i with state := i.state.restoreVars saved }
  | .restoreName name => { i with state := { i.state with command := name } }
  | .leaveFunction args locals place =>
    let s := i.state.restoreVars (i.state.locals.getD [])
    { i with state := { s with
      args := args, locals := locals, optionPlace := place, depth := s.depth - 1 } }
  | _ => i

def withTodo (i : Interpreter) (todo : List Shell.Todo) : Interpreter :=
  { i with state := { i.state with todo := todo } }

def goOn (i : Interpreter) (status : Nat) (todo : List Shell.Todo) : Interpreter :=
  { i with state := { i.state with status := status, todo := todo } }

/-- The number of loops around the command that is run, within its function. -/
def loopsIn : List Shell.Todo → Nat × Bool
  | [] => (0, false)
  | .leaveFunction _ _ _ :: _ => (0, true)
  | todo :: rest =>
    let (n, inFunction) := loopsIn rest
    match todo with
    | .decided _ _ _ _ _ | .again _ _ _ _ | .forEach _ _ _ _ => (n + 1, inFunction)
    | _ => (n, inFunction)

def loops (s : Shell.State) : Nat :=
  let (n, inFunction) := loopsIn s.todo
  if inFunction then n else n + s.outerLoops

/-- Leaves so many loops, or goes on with the last of them. A process that was made inside of a loop
ends when it leaves that. -/
def leaveLoops (goesOn : Bool) : (count : Nat) → Interpreter → List Shell.Todo → Interpreter
  | 0, i, todo => i.goOn 0 todo
  | _, i, [] => i.goOn 0 []
  | count + 1, i, todo :: rest =>
    let last : Bool := goesOn && count = 0
    match todo with
    | .decided untilTrue test body tested status =>
      if last then i.goOn 0 (.again untilTrue test body tested :: rest)
      else if count = 0 then i.goOn status rest
      else leaveLoops goesOn count i rest
    | .again _ _ _ _ | .forEach _ _ _ _ =>
      if last then i.goOn 0 (todo :: rest) else leaveLoops goesOn count i rest
    | _ => leaveLoops goesOn (count + 1) (i.giveUp todo) rest

/-- Leaves a function or a script that is read by another one; if there is none, the script as a
whole. -/
def leaveFunction (status : Nat) : Interpreter → List Shell.Todo → Interpreter
  | i, [] => i.goOn status []
  | i, todo :: rest =>
    match todo with
    | .leaveFunction _ _ _ => i.goOn status (todo :: rest)
    | .script { kind := .dot, .. } => i.goOn status rest
    | .script { kind := .main, .. } => i.goOn status [.exit status]
    | _ => leaveFunction status (i.giveUp todo) rest

def leaveAll (i : Interpreter) : Interpreter :=
  (i.state.todo.foldl giveUp i).withTodo []

end Interpreter

namespace World

/-- Lets the shell go on that an interpreter is. -/
def proceed (w : World) (i : Interpreter) : World := w.resume i.task i.state

/-- Ends a shell, unless it has to do something at its end. -/
def endShell (w : World) (t : Task) (s : Shell.State) (status : Nat) : World :=
  let i := (⟨t, s⟩ : Interpreter).leaveAll
  let s := { i.state with status := status, command := none }
  match s.traps.lookup 0 with
  | some text =>
    let s := { s with traps := s.traps.filter (·.1 ≠ 0) }
    w.resume i.task { s with todo := [.script (s.scriptOf text .trap), .exit status] }
  | none => w.set (i.task.exit status)

end World

end Conformance
