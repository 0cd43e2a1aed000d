import Conformance.Host.Launch
import Conformance.Shell.Effect

set_option autoImplicit false

/-! # Letting a shell go on

How a process that is a shell goes on after something has been done: with a status, with a
diagnosis, with the effect of a command, or to its end. Writing may kill the process, so the state
in which it goes on is put into the world before anything is written.
-/

namespace Conformance

open Shell (Text)

namespace World

/-- Lets a process go on as a shell in the given state. -/
def resume (w : World) (t : Task) (s : Shell.State) : World := w.set { t with activity := .shell s }

/-- Changes the state of the shell that a process is, if it still is one. -/
def changeShell (w : World) (pid : Nat) (f : Shell.State → Shell.State) : World :=
  match w.task? pid with
  | some t =>
    match t.activity with
    | .shell s => w.resume t (f s)
    | _ => w
  | none => w

def withStatus (w : World) (t : Task) (s : Shell.State) (status : Nat) : World :=
  w.resume t { s with status := status }

/-- Puts something in front of what is still to be done. -/
def doNext (w : World) (t : Task) (s : Shell.State) (todo : List Shell.Todo) : World :=
  w.resume t { s with todo := todo ++ s.todo }

def complain (w : World) (t : Task) (s : Shell.State) (message : String) (status : Nat) : World :=
  (w.withStatus t s status).say t.pid 2 (s.diagnosis message)

/-- As `complain`, but the shell ends. -/
def die (w : World) (t : Task) (s : Shell.State) (message : String) (status : Nat) : World :=
  w.complain t { s with todo := .exit status :: s.todo } message status

/-- Goes on after a command of the shell. The fault of a special one ends the shell. What is said
comes before what is printed, which is held back until the command is done. -/
def conclude (w : World) (t : Task) (name : Text) (special : Bool) (e : Shell.Effect) : World :=
  let voice : Shell.State := { e.state with command := some name }
  let ends : Bool := special && e.fault.isSome
  let status := if e.fault.isSome then 2 else e.status
  let todo := if ends then .exit 2 :: e.state.todo else e.state.todo
  let w := w.resume t { e.state with status := status, todo := todo }
  let spoken := (e.complaints ++ e.fault.toList).flatMap voice.diagnosis ++ e.stderr
  let w := if spoken = [] then w else w.say t.pid 2 spoken
  if e.stdout = [] then w
  else
    match w.write t.pid 1 (Shell.State.toBytes e.stdout) with
    | (none, w) => w
    | (some _, w) =>
      if e.fault.isSome then w
      else
        (w.changeShell t.pid ({ · with status := max 1 e.status })).say t.pid 2
          (voice.diagnosis (String.ofList name ++ ": I/O error"))

end World

end Conformance
