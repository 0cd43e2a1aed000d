import Conformance.Supervisor

set_option autoImplicit false

/-! # Running a case

A case is run in three steps. Its script is opened and closed again, so that a script that cannot be
opened is told as such, whatever an interpreter would say about it. Then the interpreter is launched
on it, and then the process is followed to its end. The first step that fails ends the run with an
error of its own.

How the steps are done is up to the system that a case is run on: `σ` is its state, and `π` is what
it knows of a launched process.
-/

namespace Conformance

namespace Runner

variable {σ π : Type}

/-- Launches an interpreter on a script and follows the process to its end. -/
def execute (interpreter : Path) (launch : σ → Except IoError (π × σ))
    (follow : π → σ → Except Error Execution × σ) (w : σ) : Except Error Execution × σ :=
  match launch w with
  | .error cause => (.error (.spawn interpreter cause), w)
  | .ok (process, w) => follow process w

/-- Runs a case; `refusal?` tells why its script cannot be opened, if it cannot. -/
def run (interpreter script : Path) (refusal? : σ → Option IoError)
    (launch : σ → Except IoError (π × σ)) (follow : π → σ → Except Error Execution × σ) (w : σ) :
    Except Error Execution × σ :=
  match refusal? w with
  | some cause => (.error (.unreadable script cause), w)
  | none => execute interpreter launch follow w

end Runner

end Conformance
