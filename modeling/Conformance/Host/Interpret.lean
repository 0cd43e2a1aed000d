import Conformance.Host.SimpleCommand

set_option autoImplicit false

/-! # Running shell commands

How a process that is a shell goes on, one small step at a time. The first thing that is still to be
done is taken from the list and is either done or replaced by its parts; a step that has to wait for
something is not possible yet.

A signal for which something has been arranged interrupts the shell only between commands, or while
it waits for its jobs or for a line.
-/

namespace Conformance

open Shell (Text Command Word Redirect Answer Expand)

namespace World

/-! ## Commands that contain commands -/

/-- Runs a command in a process of its own, or in the place of a shell that has nothing else to do.
The redirections are made there, and if they are impossible nothing is run. -/
def runSubshell (w : World) (t : Task) (s : Shell.State) (body : Command) (tested : Bool)
    (redirects : List (Redirect Text)) : World :=
  let (w, done) := w.redirect t s redirects
  let inner : Shell.State := innerShell s body tested
  let inner := if done.failure.isSome then { inner with todo := [.exit 2] } else inner
  let (pid, w) := if isLast s s.todo then (t.pid, w.resume done.task inner)
    else
      let (pid, w) := w.spawn done.task (.shell inner)
      (pid, w.doNext t s.withForeground [.await [pid], .check tested])
  match done.failure with
  | some message => w.say pid 2 (s.diagnosis message)
  | none => w

def runRedirected (w : World) (t : Task) (s : Shell.State) (body : Command) (tested : Bool)
    (redirects : List (Redirect Text)) : World :=
  match badTarget? redirects, body with
  | some message, _ => w.die t s message 2
  | none, .subshell _ inner => w.runSubshell t s inner tested redirects
  | none, _ =>
    let (w, done) := w.redirect t s redirects
    match done.failure with
    | none => w.doNext done.task s [.run body tested [], .restore done.saved]
    | some message => w.refuseRedirection done s message

/-- The branch of a choice that is run. -/
def chosen (w : World) (t : Task) (subject : Word) (branches : List (List Word × Command)) :
    Expand (Option Command) := do
  let around := Glob.surroundings w.tree t.cwd
  let text ← Expand.whole around subject
  Expand.branchFor around text branches

def runCommand (w : World) (t : Task) (s : Shell.State) (c : Command) (tested : Bool)
    (answers : List Answer) : World :=
  let around := Glob.surroundings w.tree t.cwd
  match c with
  | .nothing => w.resume t s
  | .simple line assignments words redirects =>
    w.runSimple t s line assignments words redirects tested answers
  | .pipeline stages =>
    let (pids, w) := forkStages t s tested w none stages
    w.doNext t s.withForeground [.await pids, .check tested]
  | .negated body => w.doNext t s [.run body true [], .negate]
  | .both first second => w.doNext t s [.run first true [], .thenRun second tested]
  | .either first second => w.doNext t s [.run first true [], .elseRun second tested]
  | .sequence first second => w.doNext t s [.run first tested [], .run second tested []]
  | .background body => w.runBackground t s body
  | .subshell line body => w.runSubshell t { s with line := line } body tested []
  | .redirected line body redirects =>
    let s := { s with line := line }
    w.expanding t s answers (.run c tested) (Expand.redirects around redirects)
      fun redirects expanded => w.runRedirected t expanded.state body tested redirects
  | .conditional test yes no => w.doNext t s [.run test true [], .branch yes no tested]
  | .loop untilTrue test body =>
    w.doNext t s [.run test true [], .decided untilTrue test body tested 0]
  | .forEach line name words body =>
    let s := { s with line := line }
    w.expanding t s answers (.run c tested) (Expand.allFields around words)
      fun fields expanded =>
        if fields.isEmpty then w.withStatus t expanded.state 0
        else w.doNext t expanded.state [.forEach name fields body tested]
  | .choose line subject branches =>
    let s := { s with line := line }
    w.expanding t s answers (.run c tested) (w.chosen t subject branches)
      fun branch expanded =>
        match branch with
        | none | some .nothing => w.withStatus t expanded.state 0
        | some body => w.doNext t expanded.state [.run body tested []]
  | .define name body =>
    let others := s.functions.filter (·.1 ≠ name)
    w.withStatus t { s with functions := (name, body) :: others } 0

/-! ## Scripts -/

/-- How much of a script is read in one go. -/
def scriptPortion : Nat := 8192

/-- Gets more text of a script; none if it is not there yet. -/
def readScript (w : World) (t : Task) (s : Shell.State) (script : Shell.Script) : Option World :=
  let goOn (w : World) (source : Shell.Source) : World :=
    w.doNext t s [.script { script with source := source }]
  let complete := { script.source with complete := true }
  match script.handle with
  | none => some (goOn w complete)
  | some h =>
    match w.take h fun rest => min scriptPortion rest.length with
    | .later => none
    | .atEnd | .refused _ => some (goOn w complete)
    | .got bytes w =>
      some (goOn w (script.source.append ((Shell.State.ofBytes bytes).filter (· ≠ '\x00'))))

/-- Runs the next command of a script. A script that was given as an argument is left as soon as its
last command is known. -/
def stepScript (w : World) (t : Task) (s : Shell.State) (script : Shell.Script) : Option World :=
  match { script.source with documents := s.documents, aliases := s.aliases }.next with
  | .error .starved => w.readScript t s script
  | .error (.fault line message) => some (w.die t { s with line := line } message 2)
  | .ok none =>
    let isInner : Bool := script.kind = .eval || script.kind = .dot
    some (if isInner ∧ ¬ script.started then w.withStatus t s 0 else w.resume t s)
  | .ok (some portion) =>
    let s := { s with documents := portion.rest.documents }
    let rest : List Shell.Todo :=
      if portion.atEnd ∧ script.kind = .argument then []
      else
        let started : Bool := script.started || (match portion.command with
          | .nothing => false
          | _ => true)
        [.script { script with source := portion.rest, started := started }]
    let command : List Shell.Todo :=
      if s.has 'n' then [] else [.run portion.command script.tested []]
    some (w.doNext t s (command ++ rest))

/-! ## Lines -/

/-- Adds bytes to a line: what has been got, the last first; whether the next character is escaped;
and whether the line is complete. -/
def addToLine (raw : Bool) : List (Char × Bool) → Bool → Bytes → List (Char × Bool) × Bool × Bool
  | got, escaped, [] => (got, escaped, false)
  | got, escaped, b :: rest =>
    let c := Char.ofNat b.toNat
    if c = '\x00' then addToLine raw got escaped rest
    else if escaped then addToLine raw (if c = '\n' then got else (c, true) :: got) false rest
    else if c = '\\' ∧ ¬ raw then addToLine raw got true rest
    else if c = '\n' then (got, false, true)
    else addToLine raw ((c, false) :: got) false rest

/-- Goes on reading a line from standard input, no further than to its end. -/
def stepLine (w : World) (t : Task) (s : Shell.State) (raw : Bool) (got : List (Char × Bool))
    (escaped : Bool) (names : List String) : Option World :=
  let finish (w : World) (got : List (Char × Bool)) (status : Nat) : Option World :=
    some (w.conclude t "read".toList false
      (match Shell.Effect.assignLine s names got.reverse with
        | .ok s => .ofStatus s status
        | .error message => .fail s message))
  match t.handle? 0 with
  | none => finish w got 1
  | some h =>
    match w.take h fun held => (held.takeWhile (· ≠ 0x0A)).length + 1 with
    | .later => none
    | .atEnd | .refused _ => finish w got 1
    | .got bytes w =>
      match addToLine raw got escaped bytes with
      | (got, _, true) => finish w got 0
      | (got, escaped, false) => some (w.doNext t s [.readLine raw got escaped names])

/-! ## Steps -/

/-- Does the first thing on the list; `s` is the state without it. -/
def stepTodo (w : World) (t : Task) (s : Shell.State) (first : Shell.Todo) : Option World :=
  let next (todo : List Shell.Todo) : Option World := some (w.doNext t s todo)
  match first with
  | .run c tested answers => some (w.runCommand t s c tested answers)
  | .perform p tested answers => some (w.perform t s p tested answers)
  | .thenRun c tested => next (if s.status = 0 then [.run c tested []] else [])
  | .elseRun c tested => next (if s.status = 0 then [] else [.run c tested []])
  | .negate => some (w.withStatus t s (if s.status = 0 then 1 else 0))
  | .branch yes no tested =>
    if s.status = 0 then next [.run yes tested []]
    else match no with
      | .nothing => some (w.withStatus t s 0)
      | _ => next [.run no tested []]
  | .decided untilTrue test body tested status =>
    if (s.status = 0) ≠ untilTrue then next [.run body tested [], .again untilTrue test body tested]
    else some (w.withStatus t s status)
  | .again untilTrue test body tested =>
    next [.run test true [], .decided untilTrue test body tested s.status]
  | .forEach name fields body tested =>
    match fields with
    | [] => next []
    | field :: rest =>
      some (match s.setVar name field with
        | .ok s => w.doNext t s [.run body tested [], .forEach name rest body tested]
        | .error message => w.die t s message 2)
  | .check tested => next (if s.has 'e' ∧ ¬ tested ∧ s.status ≠ 0 then [.exit s.status] else [])
  | .script script => w.stepScript t s script
  | .restore _ | .restoreVariables _ | .restoreName _ | .leaveFunction _ _ _ =>
    some (w.proceed ((⟨t, s⟩ : Interpreter).giveUp first))
  | .await pids => if w.allEnded pids then some (w.collect t s pids) else none
  | .awaitJobs number => if w.jobsEnded s number then some (w.finishJobs t s number) else none
  | .fill pid pipe got => w.stepFill t s pid pipe got
  | .readLine raw got escaped names => w.stepLine t s raw got escaped names
  | .status n => some (w.withStatus t s n)
  | .exit status => some (w.endShell t s status)

/-- Whether a shell takes notice of signals in front of what is to be done: not in the middle of a
command. -/
def noticesSignals (s : Shell.State) : Bool :=
  match s.todo with
  | .await _ :: _ | .fill _ _ _ :: _ | .perform _ _ _ :: _ | .run _ _ (_ :: _) :: _
  | .restore _ :: _ | .restoreVariables _ :: _ | .restoreName _ :: _ | .exit _ :: _ => false
  | _ => true

/-- What is still to be done after the waiting in front of it has been given up. -/
def withoutWaiting : List Shell.Todo → List Shell.Todo
  | .awaitJobs _ :: rest => withoutWaiting rest
  | todo => todo

/-- Runs what is to be run for signals that have arrived, one after the other. -/
def takeSignals (w : World) (t : Task) (s : Shell.State) : World :=
  let (status, todo) : Nat × List Shell.Todo := match s.todo with
    | .awaitJobs _ :: rest => (128 + t.pending.head?.getD 0, withoutWaiting rest)
    | .readLine _ _ _ _ :: rest => (1, rest)
    | todo => (s.status, todo)
  let actions := t.pending.flatMap fun signal =>
    match s.traps.lookup signal with
    | some text => [Shell.Todo.script (s.scriptOf text .trap), .status status]
    | none => []
  w.resume { t with pending := [] } { s with status := status, todo := actions ++ todo }

def stepShell (w : World) (t : Task) (s : Shell.State) : Option World :=
  if ¬ t.pending.isEmpty ∧ noticesSignals s then some (w.takeSignals t s)
  else match s.todo with
    | first :: rest => w.stepTodo t { s with todo := rest } first
    | [] => some (w.endShell t s s.status)

end World

end Conformance
