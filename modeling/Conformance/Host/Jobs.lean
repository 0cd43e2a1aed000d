import Conformance.Host.Unwinding

set_option autoImplicit false

/-! # The processes of a shell

How a shell makes processes of its own, waits for them and sends signals, and what it arranges for
signals that it is sent. When a process that the shell waits for was killed, the shell says so. A
process in the background that ends while the shell waits for another one is noted without a word.
-/

namespace Conformance

open Shell (Text Command Effect)

namespace World

/-! ## Making processes -/

/-- The state of a process that a shell makes to run a command as a shell of its own. Only what is
ignored stays arranged for signals. -/
def innerShell (s : Shell.State) (c : Command) (tested : Bool) : Shell.State :=
  { s with
    traps := s.traps.filter fun (n, action) => n ≠ 0 && action = []
    jobs := [], outerLoops := Interpreter.loops s, todo := [.run c tested []] }

/-- Makes a process that runs a command as a shell of its own, and exits with its status. -/
def fork (w : World) (t : Task) (s : Shell.State) (c : Command) (tested : Bool) : Nat × World :=
  w.spawn t (.shell (innerShell s c tested))

/-- Makes the processes of a pipeline, of which each reads what the one before it writes. -/
def forkStages (t : Task) (s : Shell.State) (tested : Bool) :
    World → Option Nat → List Command → List Nat × World
  | w, _, [] => ([], w)
  | w, source, c :: rest =>
    let t := match source with
      | some p => t.setHandle 0 (some (.pipeInput p))
      | none => t
    if rest.isEmpty then
      let (pid, w) := w.fork t s c tested
      ([pid], w)
    else
      let (p, w) := w.newPipe
      let (pid, w) := w.fork (t.setHandle 1 (some (.pipeOutput p))) s c tested
      let (pids, w) := forkStages t s tested w (some p) rest
      (pid :: pids, w)

def stagesOf : Command → List Command
  | .pipeline stages => stages
  | c => [c]

def runBackground (w : World) (t : Task) (s : Shell.State) (c : Command) : World :=
  let ignoring := { t with ignored := [Signal.interrupt, Signal.quit] ++ t.ignored }
  let (pids, w) := forkStages ignoring s false w none (stagesOf c)
  let w := match pids.head?.bind w.task? with
    | some first => w.set (first.setHandle 0 (some .null))
    | none => w
  w.withStatus t { s with lastJob := pids.getLast?, jobs := s.jobs.adding pids } 0

/-! ## Waiting -/

/-- The status that a shell makes of an ending. -/
def statusOf : Ending → Nat
  | .exited code => code.toNat
  | .signaled signal => 128 + signal.toNat

/-- What the shell says when a process that it has waited for was killed. -/
def obituary : Ending → Text
  | .exited _ => []
  | .signaled signal =>
    if signal.toNat = Signal.interrupt ∨ signal.toNat = Signal.brokenPipe then []
    else (Signal.description signal.toNat ++ "\n").toList

def allEnded (w : World) (pids : List Nat) : Bool := pids.all fun pid => (w.ending? pid).isSome

def obituaries (w : World) (pids : List Nat) : Text :=
  (pids.filterMap w.ending?).flatMap obituary

/-- The outcome of a process of a job, if it is in the world and has ended. -/
def outcome? (w : World) (pid : Nat) : Option Shell.Outcome :=
  (w.ending? pid).map fun ending =>
    match ending with
    | .exited code => .exited code.toNat
    | .signaled signal => .killed signal.toNat

/-- Notes the endings of processes in the background, which are not in the world any longer. -/
def noteJobs (w : World) (s : Shell.State) : Shell.State × World :=
  let running := s.jobs.flatMap fun j => (j.members.filter (·.2.isNone)).map (·.1)
  let ended := running.filter fun pid => (w.outcome? pid).isSome
  if ended = [] then (s, w)
  else ({ s with jobs := s.jobs.map (·.note w.outcome?) }, w.reap ended)

/-- Goes on after some processes have ended; the last one gives the status. -/
def collect (w : World) (t : Task) (s : Shell.State) (pids : List Nat) : World :=
  let said := w.obituaries pids
  let status := ((pids.getLast?.bind w.ending?).map statusOf).getD 0
  let (s, w) := (w.reap pids).noteJobs s
  let w := w.withStatus t s status
  if said = [] then w else w.say t.pid 2 said

/-- The job that an argument of `wait` stands for. -/
def waitedFor? (s : Shell.State) (arg : Text) : Except String (Option Shell.Job) :=
  if arg.head? = some '%' then (s.jobs.named arg).map some
  else (Effect.number arg).map s.jobs.ledBy?

def waitCommand (w : World) (t : Task) (s : Shell.State) (args : List Text) : World :=
  let fail (message : String) : World := w.conclude t "wait".toList false (.fail s message)
  match (⟨"", ""⟩ : Shell.OptionLetters).parse args with
  | .error message => fail message
  | .ok (_, []) => w.doNext t { s with status := 0 } [.awaitJobs none]
  | .ok (_, args) =>
    match args.mapM (waitedFor? s) with
    | .error message => fail message
    | .ok jobs =>
      let waits := (jobs.filterMap id).map fun j => Shell.Todo.awaitJobs (some j.number)
      w.doNext t { s with status := 127 } waits

/-- The jobs that are waited for. -/
def awaited (s : Shell.State) (number : Option Nat) : Shell.Jobs :=
  s.jobs.filter fun j => number.all (· = j.number)

def jobsEnded (w : World) (s : Shell.State) (number : Option Nat) : Bool :=
  (awaited s number).all fun j => (j.note w.outcome?).isDone

/-- Goes on when the jobs have ended that are waited for. If it is a single one, it gives the status,
and is spoken of if it has ended only now. -/
def finishJobs (w : World) (t : Task) (s : Shell.State) (number : Option Nat) : World :=
  let fresh := (awaited s number).flatMap fun j => (j.members.filter (·.2.isNone)).map (·.1)
  let said := if number.isSome then w.obituaries fresh else []
  let (noted, w) := w.noteJobs s
  let status := match number with
    | none => s.status
    | some _ => ((awaited noted number).head?.bind (·.outcome?)).elim 127 (·.status)
  let jobs := noted.jobs.markWaited fun j => number.all (· = j.number)
  let w := w.withStatus t { noted with jobs := jobs } status
  if said = [] then w else w.say t.pid 2 said

/-! ## Showing jobs -/

/-- The place where the commands of a job stand when it is shown; they are not known. -/
def commandColumn : Nat := 33

/-- What is shown of a job: its number, whether it is the last one or the one before, and what it is
doing. -/
def jobLine (jobs : Shell.Jobs) (j : Shell.Job) : Text :=
  let number := some j.number
  let mark :=
    if jobs.getLast?.map (·.number) = number then "+"
    else if jobs.dropLast.getLast?.map (·.number) = number then "-"
    else " "
  let doing := if ¬ j.isDone then "Running" else match j.outcome? with
    | some (.exited 0) => "Done"
    | some (.exited status) => "Done(" ++ toString status ++ ")"
    | some (.killed signal) => Signal.description signal
    | none => "Running"
  let front := ("[" ++ toString j.number ++ "] " ++ mark ++ " " ++ doing).toList
  front ++ List.replicate (max 1 (commandColumn - front.length)) ' '
    ++ (j.members.drop 1).flatMap (fun _ => [' ', '|', ' ']) ++ ['\n']

/-- Runs `jobs`. A job that has ended is forgotten when it has been shown. -/
def jobsCommand (w : World) (t : Task) (s : Shell.State) (args : List Text) : World :=
  let (s, w) := w.noteJobs s
  w.conclude t "jobs".toList false (Effect.withOptions ⟨"lp", ""⟩ s args fun given words =>
    let shown : Except String Shell.Jobs :=
      if words = [] then .ok s.jobs.reverse else words.mapM s.jobs.named
    match shown with
    | .error message => .fail s message
    | .ok shown =>
      let text := shown.flatMap fun j =>
        if given.any (·.1 = 'p') then Shell.State.number ((j.members.head?.map (·.1)).getD 0) ++ ['\n']
        else jobLine s.jobs j
      let kept := s.jobs.filter fun j => !(j.isDone && shown.contains j)
      .print { s with jobs := kept } text)

/-! ## Signals -/

/-- The signal that a word of the shell stands for, from `least` on. -/
def signalOf? (least : Nat) (word : Text) : Option Signal :=
  if word ≠ [] ∧ word.all Char.isDigit then
    let n := Shell.Arithmetic.ofDigits 10 word
    if n ≤ Signal.last then some n else none
  else
    let name := (String.ofList word).toUpper
    if least = 0 ∧ name = "EXIT" then some 0 else Signal.named? name

def killUsage : String :=
  "Usage: kill [-s sigspec | -signum | -sigspec] [pid | job]... or\nkill -l [exitstatus]"

/-- The process or the group that an argument of `kill` stands for. -/
def target (s : Shell.State) (arg : Text) : Except String Int :=
  match arg with
  | '%' :: _ =>
    (s.jobs.named arg).map fun j => -(((j.members.head?.map (·.1)).getD 0 : Nat) : Int)
  | '-' :: digits => (Effect.number digits).map fun n => -(n : Int)
  | _ => (Effect.number arg).map Int.ofNat

/-- Sends a signal to what arguments stand for, one after the other. -/
def killAll (w : World) (t : Task) (s : Shell.State) (signal : Signal) (failed : Bool) :
    List Text → World
  | [] => w.changeShell t.pid ({ · with status := if failed then 1 else 0 })
  | arg :: rest =>
    let voice : Shell.State := { s with command := some "kill".toList }
    match target s arg with
    | .error message =>
      (w.changeShell t.pid ({ · with status := 2 })).say t.pid 2 (voice.diagnosis message)
    | .ok n =>
      let (found, w) := w.sendOne t signal n
      if found then killAll w t s signal failed rest
      else killAll (w.say t.pid 2 (voice.diagnosis "No such process\n")) t s signal true rest

/-- The signals as `kill -l` lists them. -/
def signalList : Text :=
  ("0\n" ++ String.join ((List.range Signal.last).map fun n => Signal.name (n + 1) ++ "\n")).toList

def killCommand (w : World) (t : Task) (s : Shell.State) (args : List Text) : World :=
  let leave (e : Effect) : World := w.conclude t "kill".toList false e
  let send (signal : Signal) (rest : List Text) : World :=
    if rest = [] then leave (.fail s killUsage) else killAll (w.resume t s) t s signal false rest
  match args with
  | [] => leave (.fail s killUsage)
  | first :: rest =>
    match first with
    | '-' :: word =>
      match signalOf? 1 word with
      | some signal => send signal rest
      | none =>
        match (⟨"l", "s"⟩ : Shell.OptionLetters).parse args with
        | .error message => leave (.fail s message)
        | .ok (given, rest) =>
          if given.any (·.1 = 'l') then
            match rest with
            | [] => leave (.print s signalList)
            | arg :: _ =>
              match Effect.number arg with
              | .error message => leave (.fail s message)
              | .ok n =>
                let signal := if 128 < n then n - 128 else n
                if 0 < signal ∧ signal ≤ Signal.last then
                  leave (.print s (Signal.name signal ++ "\n").toList)
                else leave (.fail s ("invalid signal number or exit status: " ++ String.ofList arg))
          else match (given.reverse.findSome? (·.2)) with
            | none => send 15 rest
            | some word =>
              match signalOf? 1 word with
              | some signal => send signal rest
              | none => leave (.fail s ("invalid signal number or name: " ++ String.ofList word))
    | _ => send 15 args

/-- Arranges what is done when a signal arrives, or that nothing is arranged. -/
def arrange (t : Task) (s : Shell.State) (signal : Signal) (action : Option Text) :
    Task × Shell.State :=
  let others := s.traps.filter (·.1 ≠ signal)
  let arranged := (others ++ (action.map (signal, ·)).toList).mergeSort fun a b => a.1 ≤ b.1
  let s := { s with traps := arranged }
  if s.deaf.contains signal then (t, s)
  else
    let ignored := t.ignored.filter (· ≠ signal)
    ({ t with ignored := if action = some [] then signal :: ignored else ignored }, s)

def arrangeAll (action : Option Text) : Task → Shell.State → List Text →
    Task × Shell.State × Option String
  | t, s, [] => (t, s, none)
  | t, s, word :: rest =>
    match signalOf? 0 word with
    | none => (t, s, some (String.ofList word ++ ": bad trap"))
    | some signal =>
      let (t, s) := arrange t s signal action
      arrangeAll action t s rest

/-- What is arranged, as commands. -/
def trapListing (s : Shell.State) : Text :=
  s.traps.flatMap fun (signal, action) =>
    "trap -- ".toList ++ Effect.quoted action ++ (" " ++ Signal.name signal ++ "\n").toList

def trapCommand (w : World) (t : Task) (s : Shell.State) (special : Bool) (args : List Text) :
    World :=
  let leave (t : Task) (e : Effect) : World := w.conclude t "trap".toList special e
  match (⟨"", ""⟩ : Shell.OptionLetters).parse args with
  | .error message => leave t (.fail s message)
  | .ok (_, []) => leave t (.print s (trapListing s))
  | .ok (_, first :: rest) =>
    let isSignal : Bool := first ≠ [] && first.all Char.isDigit && (signalOf? 0 first).isSome
    let (action, words) : Option Text × List Text :=
      if rest = [] ∨ isSignal then (none, first :: rest)
      else if first = ['-'] then (none, rest)
      else (some first, rest)
    let (t, s, fault) := arrangeAll action t s words
    leave t { state := s, status := if fault.isSome then 1 else 0, complaints := fault.toList }

end World

end Conformance
