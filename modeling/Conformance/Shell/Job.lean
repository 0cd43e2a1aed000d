import Conformance.Shell.Arithmetic

set_option autoImplicit false

/-! # Jobs

The processes that a shell has left in the background. Those of one pipeline are a job, and each job
has a number. A job that has ended stays known until it has been waited for and its number is needed
for another one, or until it has been shown.
-/

namespace Conformance

namespace Shell

/-- How a process of a job has ended. -/
inductive Outcome where
  | exited (status : Nat)
  | killed (signal : Nat)
  deriving DecidableEq, Repr

def Outcome.status : Outcome → Nat
  | exited status => status
  | killed signal => 128 + signal

/-- The processes of a pipeline in the background. -/
structure Job where
  number : Nat
  /-- The processes, with the outcomes of those that are known to have ended. -/
  members : List (Nat × Option Outcome)
  waited : Bool
  deriving DecidableEq, Repr

namespace Job

/-- Whether all processes of a job have ended. -/
def isDone (j : Job) : Bool := j.members.all fun (_, outcome) => outcome.isSome

/-- The process that a job is known by, the last one. -/
def leader? (j : Job) : Option Nat := j.members.getLast?.map (·.1)

/-- The outcome of a job, that of its last process. -/
def outcome? (j : Job) : Option Outcome := j.members.getLast?.bind (·.2)

/-- A job as it is after some of its processes have ended. -/
def note (ended : Nat → Option Outcome) (j : Job) : Job :=
  { j with members := j.members.map fun (pid, outcome) => (pid, outcome.or (ended pid)) }

end Job

abbrev Jobs := List Job

namespace Jobs

/-- The first number, from a given one on, that a job may have, and the jobs that stay: a job that
has ended and has been waited for gives up its number. -/
def vacancy (jobs : Jobs) : (count : Nat) → (number : Nat) → Nat × Jobs
  | 0, number => (number, jobs)
  | count + 1, number =>
    match jobs.find? (·.number = number) with
    | none => (number, jobs)
    | some j =>
      if j.isDone && j.waited then (number, jobs.filter (·.number ≠ number))
      else vacancy jobs count (number + 1)

/-- The jobs that stay when processes are begun for which the shell waits at once. -/
def afterForeground (jobs : Jobs) : Jobs := (vacancy jobs jobs.length 1).2

/-- The jobs with one more, of the given processes. -/
def adding (jobs : Jobs) (pids : List Nat) : Jobs :=
  let (number, jobs) := vacancy jobs jobs.length 1
  jobs ++ [⟨number, pids.map (·, none), false⟩]

def numbered? (jobs : Jobs) (number : Nat) : Option Job := jobs.find? (·.number = number)

/-- The last of the jobs that a process is the last one of. -/
def ledBy? (jobs : Jobs) (pid : Nat) : Option Job := jobs.reverse.find? (·.leader? = some pid)

/-- The jobs, where those have been waited for that satisfy a condition. -/
def markWaited (jobs : Jobs) (p : Job → Bool) : Jobs :=
  jobs.map fun j => if p j then { j with waited := true } else j

/-- The job that a word with a percent sign stands for, or what is wrong with it. The last job is
the current one. -/
def named (jobs : Jobs) (word : Text) : Except String Job :=
  let sought (j : Option Job) (message : String) : Except String Job :=
    match j with
    | some j => .ok j
    | none => .error message
  match word with
  | ['%'] | ['%', '%'] | ['%', '+'] => sought jobs.getLast? "No current job"
  | ['%', '-'] => sought jobs.dropLast.getLast? "No previous job"
  | '%' :: digits =>
    let number := if digits.all Char.isDigit then Arithmetic.ofDigits 10 digits else 0
    sought (jobs.numbered? number) ("No such job: " ++ String.ofList word)
  | _ => .error ("No such job: " ++ String.ofList word)

end Jobs

end Shell

end Conformance
