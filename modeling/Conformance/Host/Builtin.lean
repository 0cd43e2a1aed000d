import Conformance.Host.CommandWord

set_option autoImplicit false

/-! # Commands of the shell itself

The commands that a shell runs without launching a program: those that change the shell, its
working directory or what it still has to do, and some that are also tools.

A command is run by a process `t` whose shell is in state `s`; what remains to be done after the
command is already in `s`.
-/

namespace Conformance

open Shell (Text Effect)

/-! ## The working directory -/

namespace Directory

/-- The path that leads from a directory along another path, where each `..` takes a name away. -/
def follow (directory path : Text) : Text :=
  let start := if path.head? = some '/' then [] else FileTree.piecesOf (Tool.bytes directory)
  let names := (FileTree.piecesOf (Tool.bytes path)).foldl (fun names piece =>
    if piece = [0x2E] then names
    else if piece = [0x2E, 0x2E] then names.dropLast
    else names ++ [piece]) start
  if names = [] then ['/'] else names.flatMap fun name => '/' :: Shell.State.ofBytes name

/-- Whether a path is not sought in other directories. -/
def isRooted (path : Text) : Bool :=
  match path with
  | '/' :: _ | ['.'] | '.' :: '/' :: _ | ['.', '.'] | '.' :: '.' :: '/' :: _ => true
  | _ => false

/-- Makes a directory the working directory; `physical` says that links on the way are resolved.
None if that is impossible. -/
def enter (tree : FileTree) (t : Task) (s : Shell.State) (physical : Bool) (path : Text) :
    Option (Task × Except String Shell.State) :=
  let target := if physical then path else follow s.directory path
  match tree.find t.cwd (Tool.bytes target) with
  | .ok (id, .directory mode _ _) =>
    if mode &&& 0o100 = 0 then none
    else
      let directory := if physical then Shell.State.ofBytes (tree.pathOf id) else target
      some ({ t with cwd := id }, do
        let s ← s.exportVar "OLDPWD" s.directory
        let s ← s.exportVar "PWD" directory
        return { s with directory := directory })
  | _ => none

/-- The directories in which a path is sought, with whether that is to be shown. -/
def candidates (s : Shell.State) (path : Text) : List (Text × Bool) :=
  match s.value? "CDPATH" with
  | none => []
  | some searchPath =>
    if isRooted path then []
    else (Lookup.entries (Tool.bytes searchPath)).map fun entry =>
      let front := Shell.State.ofBytes entry
      (if front = [] then path else front ++ '/' :: path, front ≠ [])

def change (tree : FileTree) (t : Task) (s : Shell.State) (args : List Text) : Task × Effect :=
  match (⟨"LP", ""⟩ : Shell.OptionLetters).parse args with
  | .error message => (t, .fail s message)
  | .ok (given, operands) =>
    let physical : Bool := given.getLast?.any (·.1 = 'P')
    let (path, shows) : Text × Bool := match operands with
      | [] => ((s.value? "HOME").getD [], false)
      | ['-'] :: _ => ((s.value? "OLDPWD").getD [], true)
      | path :: _ => (path, false)
    let path := if path = [] then ['.'] else path
    let found := (candidates s path).find? fun c => tree.isDirectory t.cwd (Tool.bytes c.1)
    let (target, shows) := match found with
      | some (target, named) => (target, shows || named)
      | none => (path, shows)
    match enter tree t s physical target with
    | none => (t, .fail s ("can't cd to " ++ String.ofList path))
    | some (t, .error message) => (t, .fail s message)
    | some (t, .ok s) => (t, .print s (if shows then s.directory ++ ['\n'] else []))

def print (tree : FileTree) (t : Task) (s : Shell.State) (args : List Text) : Effect :=
  Effect.withOptions ⟨"LP", ""⟩ s args fun given _ =>
    let physical : Bool := given.getLast?.any (·.1 = 'P')
    .print s ((if physical then Shell.State.ofBytes (tree.pathOf t.cwd) else s.directory) ++ ['\n'])

end Directory

namespace Builtin

/-! ## Commands that leave something -/

/-- The status from which a trap started, if one is being run. -/
def statusBefore? : List Shell.Todo → Option Nat
  | [] => none
  | .status n :: _ | .exit n :: _ => some n
  | _ :: rest => statusBefore? rest

/-- The status that is given to `exit` or `return`, or else the last one; in a trap that is the one
before it. -/
def statusFrom (s : Shell.State) (args : List Text) : Except String Nat :=
  match args with
  | arg :: _ => Effect.number arg
  | [] => .ok ((statusBefore? s.todo).getD s.status)

def loopCount (s : Shell.State) (args : List Text) : Except String Nat :=
  match args with
  | [] => .ok (min 1 (Interpreter.loops s))
  | arg :: _ =>
    match Effect.number arg with
    | .ok 0 => .error (Effect.badNumber arg)
    | .ok n => .ok (min n (Interpreter.loops s))
    | .error message => .error message

/-! ## Commands that print -/

def printf (s : Shell.State) (args : List Text) : Effect :=
  Effect.withOptions ⟨"", ""⟩ s args fun _ rest =>
    match rest with
    | [] => .fail s "usage: printf format [arg ...]"
    | format :: args =>
      let p := Shell.Printing.printf format args
      { state := s, stdout := p.text, complaints := p.complaints
        status := if p.complaints.isEmpty then 0 else 1, fault := p.fault }

/-- Runs `test`, which ends with a bracket if it was called by one. -/
def test (tree : FileTree) (t : Task) (s : Shell.State) (name : String) (args : List Text) :
    Effect :=
  if name = "[" ∧ args.getLast? ≠ some [']'] then .fail s "missing ]"
  else
    let words := if name = "[" then args.dropLast else args
    match Shell.Condition.decide (Tool.about tree t.cwd) words with
    | .ok true => .ofStatus s 0
    | .ok false => .ofStatus s 1
    | .error message => .fail s message

/-- Runs `ulimit`: nothing is limited, and all limits are accepted. -/
def ulimit (s : Shell.State) (args : List Text) : Effect :=
  Effect.withOptions ⟨"HSatfdsmcnpvwr", ""⟩ s args fun _ rest =>
    if rest = [] then .print s "unlimited\n".toList else .ofStatus s 0

/-- Runs `fg` or `bg`: no job can be brought to the front. -/
def resumeJob (s : Shell.State) (args : List Text) : Effect :=
  let word := args.head?.getD ['%']
  match s.jobs.named word with
  | .error message => .fail s message
  | .ok _ =>
    let shown := if args = [] then "(null)" else String.ofList word
    .fail s ("job " ++ shown ++ " not created under job control")

/-- What the commands do that only need the shell and the files. -/
def effect? (tree : FileTree) (t : Task) (s : Shell.State) (name : String) (args : List Text) :
    Option Effect :=
  match name with
  | ":" | "true" => some (.ofStatus s 0)
  | "false" => some (.ofStatus s 1)
  | "echo" => some (.print s (Shell.Printing.echo args))
  | "printf" => some (printf s args)
  | "test" | "[" => some (test tree t s name args)
  | "pwd" => some (Directory.print tree t s args)
  | "export" | "readonly" => some (Effect.marking name s args)
  | "local" => some (Effect.localCommand s args)
  | "unset" => some (Effect.unset s args)
  | "set" => some (Effect.set s args)
  | "shift" => some (Effect.shift s args)
  | "getopts" => some (Effect.getopts s args)
  | "alias" => some (Effect.aliasCommand s args)
  | "unalias" => some (Effect.unaliasCommand s args)
  | "umask" => some (Effect.umask s args)
  | "ulimit" => some (ulimit s args)
  | "type" => some (CommandWord.typeCommand tree t.cwd s args)
  | "command" => some (CommandWord.describe tree t.cwd s args)
  | "hash" => some (CommandWord.hashCommand tree t.cwd s args)
  | "times" =>
    let row := "0m0.000000s 0m0.000000s\n"
    some (.print s (row ++ row).toList)
  | "fg" | "bg" => some (resumeJob s args)
  | _ => none

/-! ## Scripts within scripts -/

/-- The path of a script that is given by its name: a bare name is sought in the search path. -/
def scriptPath? (tree : FileTree) (t : Task) (s : Shell.State) (name : Text) : Option Text :=
  if name.contains '/' then some name
  else
    ((CommandWord.pathsFor (CommandWord.searchPath s false) name).find? fun path =>
      match tree.find t.cwd path with
      | .ok (_, entry) => entry.isRegular
      | .error _ => false).map Shell.State.ofBytes

end Builtin

namespace World

/-- Runs a script in the shell itself; diagnoses then name `command`. -/
def runWithin (w : World) (t : Task) (s : Shell.State) (command : Text) (script : Shell.Script) :
    World :=
  w.resume t { s with
    command := some command, todo := .script script :: .restoreName s.command :: s.todo }

def dotCommand (w : World) (t : Task) (s : Shell.State) (special tested : Bool)
    (args : List Text) : World :=
  let leave (e : Effect) : World := w.conclude t ['.'] special e
  match (⟨"", ""⟩ : Shell.OptionLetters).parse args with
  | .error message => leave (.fail s message)
  | .ok (_, []) => leave (.ofStatus s 0)
  | .ok (_, name :: _) =>
    match Builtin.scriptPath? w.tree t s name with
    | none => leave (.fail s (String.ofList name ++ ": not found"))
    | some path =>
      match w.openInput t (Tool.bytes path) with
      | .error e => leave (.fail s (openFailure "open" path e "No such file"))
      | .ok (h, w) => w.runWithin t s path { s.scriptFrom h .dot with tested := tested }

/-- Runs `exec`. The redirections of the command remain, so what would undo them is dropped. -/
def execCommand (w : World) (t : Task) (s : Shell.State) (usualPath : Bool) (args : List Text) :
    World :=
  let s := match s.todo with
    | .restore _ :: rest => { s with todo := rest }
    | _ => s
  match (⟨"", ""⟩ : Shell.OptionLetters).parse args with
  | .error message => w.conclude t "exec".toList true (.fail s message)
  | .ok (_, []) => w.withStatus t s 0
  | .ok (_, words) =>
    match CommandWord.successorFor w.tree t.cwd (CommandWord.searchPath s usualPath) words with
    | .ok image => (w.set { t with environment := s.environment }).launchImage t.pid image
    | .error e =>
      let status := CommandWord.failureStatus e
      let voice : Shell.State := { s with command := some "exec".toList }
      (w.resume t { s with status := status, todo := .exit status :: s.todo }).say t.pid 2
        (voice.diagnosis (CommandWord.failureMessage (words.head?.getD []) e))

/-- Runs `read`, which goes on when there is a line. -/
def readCommand (w : World) (t : Task) (s : Shell.State) (args : List Text) : World :=
  match (⟨"r", "p"⟩ : Shell.OptionLetters).parse args with
  | .error message => w.conclude t "read".toList false (.fail s message)
  | .ok (_, []) => w.conclude t "read".toList false (.fail s "arg count")
  | .ok (given, names) =>
    w.doNext t s [.readLine (given.any (·.1 = 'r')) [] false (names.map String.ofList)]

/-- Runs a command of the shell. `special` says that its faults end the shell, and `tested` that the
failures of what it runs are being looked at. -/
def builtin (w : World) (t : Task) (s : Shell.State) (name : Text) (special tested usualPath : Bool)
    (args : List Text) : World :=
  let leave (e : Effect) : World := w.conclude t name special e
  let i : Interpreter := ⟨t, s⟩
  match Builtin.effect? w.tree t s (String.ofList name) args with
  | some e => leave e
  | none =>
    match String.ofList name with
    | "cd" | "chdir" =>
      let (t, e) := Directory.change w.tree t s args
      w.conclude t name special e
    | "exit" =>
      match Builtin.statusFrom s args with
      | .ok n => w.doNext t s [.exit n]
      | .error message => leave (.fail s message)
    | "return" =>
      match Builtin.statusFrom s args with
      | .ok n => w.proceed (Interpreter.leaveFunction n i s.todo)
      | .error message => leave (.fail s message)
    | "break" | "continue" =>
      match Builtin.loopCount s args with
      | .ok n => w.proceed (Interpreter.leaveLoops (name = "continue".toList) n i s.todo)
      | .error message => leave (.fail s message)
    | "eval" =>
      if args = [] then leave (.ofStatus s 0)
      else w.runWithin t s name
        { s.scriptOf (Shell.State.joined args) .eval with tested := tested }
    | "." => w.dotCommand t s special tested args
    | "exec" => w.execCommand t s usualPath args
    | "read" => w.readCommand t s args
    | "trap" => w.trapCommand t s special args
    | "kill" => w.killCommand t s args
    | "wait" => w.waitCommand t s args
    | "jobs" => w.jobsCommand t s args
    | _ => leave (.ofStatus s 0)

end World

end Conformance
