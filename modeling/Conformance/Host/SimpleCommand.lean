import Conformance.Host.Builtin
import Conformance.Host.Glob

set_option autoImplicit false

/-! # Simple commands

How a simple command is run. First its words and the targets of its redirections are expanded, then
it is redirected, then its assignments are made, and at last what its first word stands for is run:
a function, a command of the shell, or a program in a process of its own.

An expansion may need the output of other commands. It is then broken off, the output is collected,
and the expansion is started again with what has been collected so far.
-/

namespace Conformance

open Shell (Text Command Word Redirect Prepared Answer Saved Expand)

namespace World

/-! ## Expansions -/

/-- Makes a process that runs a command for its output, and waits for it; `frame` is what is done
then. -/
def collectOutput (w : World) (t : Task) (s inner : Shell.State) (body : Command)
    (frame : Shell.Todo) : World :=
  let (p, w) := w.newPipe
  let (pid, w) := w.fork (t.setHandle 1 (some (.pipeOutput p))) inner body false
  w.doNext t s.withForeground [.fill pid p [], frame]

/-- Expands something with the answers that are there, and goes on with it. `again` is what is done
when there are more answers. -/
def expanding {α : Type} (w : World) (t : Task) (s : Shell.State) (answers : List Answer)
    (again : List Answer → Shell.Todo) (e : Expand α) (goOn : α → Shell.Expanding → World) : World :=
  match Expand.start e s answers with
  | .ok (a, expanded) => goOn a expanded
  | .error (.fails message) => w.die t s message 2
  | .error (.needs body inner) => w.collectOutput t s inner body (again answers)

/-- Goes on when a process whose output was wanted has written something or has ended. -/
def stepFill (w : World) (t : Task) (s : Shell.State) (pid pipe : Nat) (got : Bytes) :
    Option World :=
  match w.take (.pipeInput pipe) List.length with
  | .later | .refused _ => none
  | .got bytes w => some (w.doNext t s [.fill pid pipe (got ++ bytes)])
  | .atEnd =>
    match w.ending? pid with
    | none => none
    | some ending =>
      let output := dropTail (· = '\n') ((Shell.State.ofBytes got).filter (· ≠ '\x00'))
      let answer : Answer := ⟨output, statusOf ending⟩
      let todo := match s.todo with
        | .run c tested answers :: rest => .run c tested (answers ++ [answer]) :: rest
        | .perform p tested answers :: rest => .perform p tested (answers ++ [answer]) :: rest
        | todo => todo
      let (s, w) := ((w.reap [pid]).dropPipe pipe).noteJobs s
      let w := w.resume t { s with todo := todo }
      let said := obituary ending
      some (if said = [] then w else w.say t.pid 2 said)

/-! ## Programs -/

/-- Whether a process has nothing left to do but to exit, so that it can run a program itself. -/
def isLast (s : Shell.State) (todo : List Shell.Todo) : Bool :=
  s.traps.all (·.2 = []) && todo.all fun todo =>
    match todo with
    | .check _ => true
    | _ => false

/-- Runs a program in a process of its own, or in the place of a shell that has nothing else to
do. -/
def runProgram (w : World) (t : Task) (s : Shell.State) (usualPath : Bool) (words : List Text) :
    World :=
  let name := words.head?.getD []
  match CommandWord.imageFor w.tree t.cwd (CommandWord.searchPath s usualPath) words with
  | .error (e, status) => w.complain t s (CommandWord.failureMessage name e) status
  | .ok image =>
    let program := { t with environment := s.environment }
    let behind := match s.todo with
      | .restore _ :: rest => rest
      | todo => todo
    if isLast s behind then (w.set program).launchImage t.pid image
    else
      let (pid, w) := w.spawn program (.leaving [] [] 0)
      (w.launchImage pid image).doNext t
        (if usualPath then s else CommandWord.track s name).withForeground [.await [pid]]

/-! ## Running what is expanded -/

/-- Writes a text to where standard error led in front of the redirections of a command. -/
def sayOutside (w : World) (t : Task) (s : Shell.State) (text : Text) : World :=
  let outside : Option Shell.Handle := match s.todo with
    | .restore saved :: _ =>
      match saved.lookup 2 with
      | some h => h
      | none => t.handle? 2
    | _ => t.handle? 2
  ((w.set (t.setHandle 2 outside)).say t.pid 2 text)

def traceLine (s : Shell.State) (assigned : List (String × Text)) (fields : List Text) : Text :=
  let settings := assigned.map fun (name, value) => name.toList ++ '=' :: value
  (s.value? "PS4").getD [] ++ Shell.State.joined (settings ++ fields) ++ ['\n']

def depthLimit : Nat := 1000

/-- Runs a function. The variables that were set for it only are its own. -/
def runFunction (w : World) (t : Task) (s : Shell.State) (saved : Saved) (tested : Bool)
    (body : Command) (args : List Text) : World :=
  if depthLimit ≤ s.depth then
    w.die t s ("Maximum function recursion depth (" ++ toString depthLimit ++ ") reached") 2
  else
    w.resume t { s with
      args := args, optionPlace := .first, locals := some saved, depth := s.depth + 1
      todo := .run body tested [] :: .leaveFunction s.args s.locals s.optionPlace :: s.todo }

/-- Runs what the words of a simple command stand for. `saved` holds the variables that were set for
it only. -/
def runWords (w : World) (t : Task) (s : Shell.State) (i : CommandWord.Invocation)
    (saved : Saved) (special tested : Bool) : World :=
  let restoring (s : Shell.State) : Shell.State :=
    if saved = [] then s else { s with todo := .restoreVariables saved :: s.todo }
  match i.words with
  | [] => w.resume t s
  | name :: args =>
    match if i.plain then none else s.functions.lookup (String.ofList name) with
    | some body => w.runFunction t s saved tested body args
    | none =>
      if CommandWord.isBuiltin name then
        w.builtin t (restoring s) name special tested i.usualPath args
      else w.runProgram t (restoring s) i.usualPath i.words

/-- Makes the assignments of a simple command and runs it. -/
def perform (w : World) (t : Task) (s : Shell.State) (p : Prepared) (tested : Bool)
    (answers : List Answer) : World :=
  let i := CommandWord.invocation s p.fields
  let special : Bool := !i.plain && i.words.head?.any CommandWord.isSpecial
  let lasts : Bool := i.words = [] || special
  let exports : Bool := !lasts || (i.words.head? = some "exec".toList && 1 < i.words.length)
  let assign : Shell.State → String → Text → Except String Shell.State :=
    if exports then Shell.State.exportVar else Shell.State.setVar
  let around := Glob.surroundings w.tree t.cwd
  w.expanding t s answers (.perform p tested) (Expand.assignAll around assign p.assignments)
    fun values expanded =>
      let saved := if lasts then [] else p.assignments.map fun (name, _) => (name, s.lookup? name)
      let lastStatus := expanded.lastStatus.or p.lastStatus
      let status := if i.words = [] then lastStatus.getD 0 else s.status
      let s := { expanded.state with status := status, line := p.line }
      let w := w.resume t s
      let shown : Bool := s.has 'x' && (values ≠ [] || p.fields ≠ [])
      let w := if shown then w.sayOutside t s (traceLine s values p.fields) else w
      if shown ∧ ((w.task? t.pid).bind Task.ending?).isSome then w
      else w.runWords t s i saved special tested

/-- Runs a simple command: its words are expanded and its redirections are made. -/
def runSimple (w : World) (t : Task) (s : Shell.State) (line : Nat)
    (assignments : List (String × Word)) (words : List Word) (redirects : List (Redirect Word))
    (tested : Bool) (answers : List Answer) : World :=
  let s := { s with line := line }
  let around := Glob.surroundings w.tree t.cwd
  let again := .run (.simple line assignments words redirects) tested
  let expand : Expand (List Text × List (Redirect Text)) := do
    let fields ← Expand.commandFields around CommandWord.declares words
    return (fields, ← Expand.redirects around redirects)
  w.expanding t s answers again expand fun (fields, redirects) expanded =>
    let s := { expanded.state with todo := .check tested :: s.todo }
    let prepared : Prepared := ⟨line, assignments, fields, expanded.lastStatus⟩
    match badTarget? redirects with
    | some message => w.die t s message 2
    | none =>
      if redirects.isEmpty then w.perform t s prepared tested []
      else
        let (w, done) := w.redirect t s redirects
        match done.failure with
        | none => w.doNext done.task s [.perform prepared tested [], .restore done.saved]
        | some message =>
          let i := CommandWord.invocation s fields
          let ends : Bool := !i.plain && i.words.head?.any CommandWord.isSpecial
          let s := if ends then { s with todo := .exit 2 :: s.todo } else s
          w.refuseRedirection done s message

end World

end Conformance
