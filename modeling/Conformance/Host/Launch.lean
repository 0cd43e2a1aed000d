import Conformance.Host.Image
import Conformance.Host.Tool.Catalog
import Conformance.Shell.Options

set_option autoImplicit false

/-! # Launching programs

How a process begins to run an image. The process keeps its number, its descriptors and the signals
it ignores; what it was doing before is forgotten. It takes a moment before anything happens.
-/

namespace Conformance

open Shell (Text)

namespace World

/-- How long it takes until a program does something: one millisecond. -/
def launchTime : Nat := 1000000

/-- Makes a process do something else, after the time it takes to launch a program. -/
def setActivity (w : World) (t : Task) (a : Activity) : World :=
  w.set { t with activity := a, pending := [], wake := w.clock + launchTime }

def finishWith (w : World) (t : Task) (stdout stderr : Text) (code : Nat) : World :=
  w.setActivity t (.leaving stdout stderr code)

/-- Adds a process that is made by another one and is like it in all but what it does. -/
def spawn (w : World) (t : Task) (a : Activity) : Nat × World :=
  w.add { t with
    parent := t.pid, pending := [], stopped := false, wake := w.clock, activity := a }

/-! ## The command interpreter -/

/-- The search path of the shell where no other is set. -/
def shellSearchPath : Text := "/usr/local/sbin:/usr/local/bin:/usr/sbin:/usr/bin:/sbin:/bin".toList

/-- The working directory of a process, by the path that its environment names if that leads
there. -/
def directoryOf (w : World) (t : Task) : Text :=
  let own := Shell.State.ofBytes (w.tree.pathOf t.cwd)
  match t.environment.lookup "PWD" with
  | some path =>
    if path.head? = some '/' ∧ ((w.tree.find 0 (Tool.bytes path)).toOption.map (·.1)) = some t.cwd
    then path else own
  | none => own

/-- The variables that a shell starts with. -/
def startVariables (w : World) (t : Task) : Shell.Variables :=
  let given : Shell.Variables := (t.environment.filter fun (name, _) =>
    Shell.Token.isName name.toList).map fun (name, value) => (name, ⟨some value, true, false⟩)
  let path : Shell.Variables :=
    if given.any (·.1 = "PATH") then [] else [("PATH", ⟨some shellSearchPath, false, false⟩)]
  let fixed : List (String × String) :=
    [("IFS", " \t\n"), ("PS1", "# "), ("PS2", "> "), ("PS4", "+ "), ("OPTIND", "1"),
     ("PPID", toString t.parent)]
  let plain := (fixed.filter fun (name, _) => name ∈ ["IFS", "OPTIND", "PPID"]
    ∨ ¬ given.any (·.1 = name)).map fun (name, value) =>
      (name, (⟨some value.toList, false, false⟩ : Shell.Variable))
  let others := given.filter fun (name, _) => name ≠ "PWD" ∧ ¬ plain.any (·.1 = name)
  path ++ others ++ plain ++ [("PWD", ⟨some (w.directoryOf t), true, false⟩)]

/-- A shell that has just been started, with nothing to do. -/
def newShell (w : World) (t : Task) (name : Text) (args : List Text) (options : List Char) :
    Shell.State :=
  { name := name, args := args, vars := w.startVariables t, functions := [], aliases := [],
    documents := #[], options := options, status := 0, mainPid := t.pid, lastJob := none,
    jobs := [], traps := [], deaf := t.ignored, line := 0, command := none, locals := none,
    optionPlace := .first, depth := 0, outerLoops := 0, umask := 0o022, directory := w.directoryOf t,
    tracked := [], todo := [] }

def withScript (s : Shell.State) (script : Shell.Script) : Activity :=
  .shell { s with todo := [.script script] }

def openFailure (verb : String) (path : Text) (e : Errno) (missing : String) : String :=
  let cause := if e = .noEntry ∨ e = .notDirectory then missing else e.description
  "cannot " ++ verb ++ " " ++ String.ofList path ++ ": " ++ cause

/-- Starts a shell with the given arguments, the first of which is its name. -/
def startShell (w : World) (t : Task) (args : List Text) : World :=
  let name := args.head?.getD []
  let refuse (message : String) : World :=
    w.finishWith t [] (name ++ (": 0: " ++ message ++ "\n").toList) 2
  match Shell.Switches.parse true [] args.tail with
  | .error message => refuse message
  | .ok (switches, operands) =>
    let options := switches.options
    if switches.takesScript then
      match operands with
      | [] => refuse "-c requires an argument"
      | text :: rest =>
        let s := w.newShell t (rest.head?.getD name) rest.tail options
        w.setActivity t (withScript s (s.scriptOf text .argument))
    else if operands = [] ∨ options.contains 's' then
      let s := w.newShell t name operands ('s' :: options.filter (· ≠ 's'))
      match t.handle? 0 with
      | some h => w.setActivity t (withScript s (s.scriptFrom h .main))
      | none => w.setActivity t (.shell s)
    else
      let file := operands.head?.getD []
      match w.openInput t (Tool.bytes file) with
      | .error e => refuse (openFailure "open" file e "No such file")
      | .ok (h, w) =>
        let s := w.newShell t file operands.tail options
        w.setActivity t (withScript s (s.scriptFrom h .main))

/-! ## Other programs -/

/-- Starts the interpreter of directive scripts. It is told of broken pipes in other ways. -/
def startDirectives (w : World) (t : Task) (args : List Bytes) : World :=
  match Script.load (w.readWhole t.cwd) args.tail with
  | .error (diagnosis, ending) =>
    w.finishWith t [] (Shell.State.ofBytes (Utf8.encode (diagnosis ++ ending.lastWords)))
      ending.status
  | .ok text =>
    w.setActivity { t with ignored := Signal.brokenPipe :: t.ignored }
      (.directives 1 (linesOf text.toList))

/-- Sends a signal to the process with a number: a negative number is a group, zero the group of the
sender. Whether there was any. -/
def sendOne (w : World) (sender : Task) (s : Signal) (target : Int) : Bool × World :=
  let group : Nat := if target = 0 then sender.group else target.natAbs
  if 0 < target then ((w.task? target.natAbs).isSome, w.signal target.natAbs s)
  else (w.tasks.any (·.group = group), w.signalGroup group s)

/-- Sends a signal to several processes. Whether there were all of them. -/
def sendTo (w : World) (sender : Task) (s : Signal) : List Int → Bool × World
  | [] => (true, w)
  | target :: rest =>
    let (found, w) := w.sendOne sender s target
    let (others, w) := sendTo w sender s rest
    (found && others, w)

/-- What a tool that runs another program says if it cannot. -/
def cannotRun (name program : String) (e : Errno) : String :=
  match name with
  | "env" =>
    "env: '" ++ program ++ "': " ++ e.description ++ "\n"
      ++ (if e = .noEntry ∧ program.contains ' ' then
        "env: use -[v]S to pass options in shebang lines\n" else "")
  | "nohup" | "timeout" | "stdbuf" =>
    name ++ ": failed to run command '" ++ program ++ "': " ++ e.description ++ "\n"
  | "setsid" => "setsid: failed to execute " ++ program ++ ": " ++ e.description ++ "\n"
  | "nice" => "nice: '" ++ program ++ "': " ++ e.description ++ "\n"
  | _ => name ++ ": " ++ program ++ ": " ++ e.description ++ "\n"

/-- What a tool knows when a process starts it. -/
def sceneOf (w : World) (t : Task) : Tool.Scene := ⟨w.tree, t.cwd, t.environment, 0o022⟩

def imageFrom (w : World) (t : Task) (args : List Text) : Except Errno Image :=
  let bytes := args.map Tool.bytes
  let path := (t.environment.lookup "PATH").map Tool.bytes
  Image.searchOrScript w.tree t.cwd path (bytes.head?.getD []) bytes

mutual

/-- Makes a process run an image. `chain` bounds the number of tools that run another program. -/
def launch (w : World) (pid : Nat) (image : Image) : (chain : Nat) → World
  | 0 => w.exit pid 126
  | chain + 1 =>
    match w.task? pid with
    | none => w
    | some t =>
      let args := image.args.map Shell.State.ofBytes
      let tool : Option String := match image.executable with
        | .tool name => some name
        | _ => none
      let t := { t with program := args.head?.getD [], tool := tool }
      match image.executable with
      | .shell => w.startShell t args
      | .directives => w.startDirectives t image.args
      | .tool name =>
        match Tool.plan name (w.sceneOf t) args.tail with
        | .finish stdout stderr code => w.finishWith t stdout stderr code
        | .pause nanos =>
          w.set { t with
            activity := .leaving [] [] 0, pending := [], wake := w.clock + launchTime + nanos }
        | .copy c => w.setActivity t (.copying c)
        | .gather g => w.setActivity t (.gathering g)
        | .repeating text => w.setActivity t (.repeating (Tool.bytes text))
        | .change tree stdout stderr code => { w with tree := tree }.finishWith t stdout stderr code
        | .send s targets =>
          let (found, w) := (w.setActivity t (.leaving [] [] 0)).sendTo t s targets
          if found then w else w.finishWith t [] "kill: No such process\n".toList 1
        | .become environment cwd ignored ownGroup args =>
          let changed := { t with
            environment := environment, cwd := cwd.getD t.cwd, ignored := ignored ++ t.ignored }
          if ownGroup ∧ t.group = t.pid then
            let (child, w) := w.spawn changed (.leaving [] [] 0)
            let w := w.set ((w.task? child).map ({ · with group := child }) |>.getD t)
            (launchFor w child name args chain).exit pid 0
          else
            let changed := { changed with group := if ownGroup then t.pid else t.group }
            launchFor (w.set changed) pid name args chain
        | .guard limit args =>
          let t := { t with group := t.pid }
          let (child, w) := (w.set t).spawn t (.leaving [] [] 0)
          let guard : Guard := ⟨child, limit, w.clock + limit.nanos + launchTime, false⟩
          launchFor (w.setActivity t (.guarding guard)) child name args chain

def launchFor (w : World) (pid : Nat) (name : String) (args : List Text) : (chain : Nat) → World
  | 0 => w.exit pid 126
  | chain + 1 =>
    match w.task? pid with
    | none => w
    | some t =>
      match w.imageFrom t args with
      | .ok image => launch w pid image chain
      | .error e =>
        w.finishWith t [] (cannotRun name (String.ofList (args.head?.getD [])) e).toList
          (if e = .noEntry then 127 else 126)

end

/-- How many tools that run another program may follow each other. -/
def chainLimit : Nat := 40

def launchImage (w : World) (pid : Nat) (image : Image) : World := w.launch pid image chainLimit

end World

end Conformance
