import Conformance.Shell.Job
import Conformance.Shell.Parser
import Conformance.Text.Utf8

set_option autoImplicit false

/-! # The state of a shell

What a running shell remembers: its parameters and variables, how it treats signals, and what is
still to be done. The latter is a list, the next thing first; a command is run by replacing it by
its parts. Things that have to be undone later, such as redirections, stand in the list behind what
they hold for.
-/

namespace Conformance

namespace Shell

/-- How an open file is used. -/
inductive Access where
  | read
  | write
  /-- Writes at the end, wherever that is. -/
  | append
  | both
  deriving DecidableEq, Repr

/-- What a descriptor of a process leads to. -/
inductive Handle where
  | null
  | zero
  | full
  /-- A file, by its number in the tree; the second number names the position in it. -/
  | file (id : Nat) (position : Nat) (access : Access)
  | pipeInput (pipe : Nat)
  | pipeOutput (pipe : Nat)
  deriving DecidableEq, Repr

abbrev Descriptors := List (Nat × Handle)

/-- Descriptors as they were before they were redirected for a while; none was closed. -/
abbrev SavedHandles := List (Nat × Option Handle)

/-- A variable. It may be marked without having a value. -/
structure Variable where
  value : Option Text
  /-- Whether programs are given it. -/
  exported : Bool
  readOnly : Bool
  deriving DecidableEq, Repr

abbrev Variables := List (String × Variable)

/-- Variables as they were before they were changed for a while; none was not there. -/
abbrev Saved := List (String × Option Variable)

/-- The place where the next option of a script is sought: the argument, counted from one, and the
character in it; at zero the argument has not been looked at yet. -/
structure OptionPlace where
  argument : Nat
  offset : Nat
  deriving DecidableEq, Repr

def OptionPlace.first : OptionPlace := ⟨1, 0⟩

/-- What a command that was run for its output has left. -/
structure Answer where
  output : Text
  status : Nat
  deriving DecidableEq, Repr

/-- A simple command whose words are expanded and whose redirections are in force. -/
structure Prepared where
  line : Nat
  assignments : List (String × Word)
  fields : List Text
  /-- The status of the last command whose output has been put into the words. -/
  lastStatus : Option Nat

/-- Where commands come from. -/
inductive ScriptKind where
  /-- A file or a stream. -/
  | main
  | argument
  | eval
  | dot
  | trap
  deriving DecidableEq, Repr

structure Script where
  source : Source
  /-- Where more text comes from. -/
  handle : Option Handle
  kind : ScriptKind
  /-- Whether the failures of its commands are being looked at. -/
  tested : Bool
  started : Bool

/-- Something that is still to be done. In a tested command a failure is being looked at, so that
it does not end the shell when failures are to end it. -/
inductive Todo where
  | run (c : Command) (tested : Bool) (answers : List Answer)
  /-- Makes the assignments of a simple command and runs it. -/
  | perform (p : Prepared) (tested : Bool) (answers : List Answer)
  | thenRun (c : Command) (tested : Bool)
  | elseRun (c : Command) (tested : Bool)
  | negate
  | branch (yes no : Command) (tested : Bool)
  /-- Goes on with a loop after its test; the status is that of the last body. -/
  | decided (untilTrue : Bool) (test body : Command) (tested : Bool) (status : Nat)
  /-- Goes on with a loop after its body. -/
  | again (untilTrue : Bool) (test body : Command) (tested : Bool)
  | forEach (name : String) (fields : List Text) (body : Command) (tested : Bool)
  /-- Ends the shell if the last command failed and failures are to end it. -/
  | check (tested : Bool)
  /-- Reads and runs the next command of a script. -/
  | script (s : Script)
  | restore (saved : SavedHandles)
  | restoreVariables (saved : Saved)
  /-- Ends a command of the shell under whose name diagnoses were written. -/
  | restoreName (name : Option Text)
  /-- Ends a function: its arguments and its variables of its own are given up. -/
  | leaveFunction (args : List Text) (locals : Option Saved) (place : OptionPlace)
  /-- Waits for the processes of a pipeline; the last one gives the status. -/
  | await (pids : List Nat)
  /-- Waits for the job with a number or for all jobs, which a trap interrupts. -/
  | awaitJobs (number : Option Nat)
  /-- Waits for a process whose output is wanted by what comes next. -/
  | fill (pid pipe : Nat) (got : Bytes)
  /-- Reads a line into variables; each character with whether it was escaped, the last first. -/
  | readLine (raw : Bool) (got : List (Char × Bool)) (escaped : Bool) (names : List String)
  /-- Ends what was run for a signal: the status is again what it was before. -/
  | status (n : Nat)
  | exit (status : Nat)

/-- What a running shell remembers. -/
structure State where
  /-- The name of the shell or of its script. -/
  name : Text
  args : List Text
  vars : Variables
  functions : List (String × Command)
  aliases : List (String × Text)
  documents : Documents
  /-- The letters of the options that are set. -/
  options : List Char
  status : Nat
  /-- The number of the process that the script is run by. -/
  mainPid : Nat
  lastJob : Option Nat
  jobs : Jobs
  /-- What is run when a signal arrives; zero is the end of the shell. -/
  traps : List (Nat × Text)
  /-- The signals that were ignored from the start, for which nothing can be arranged. -/
  deaf : List Nat
  /-- The line of the command that is being run. -/
  line : Nat
  /-- The command of the shell under whose name diagnoses are written. -/
  command : Option Text
  /-- The variables of the function that is being run, as they were outside. -/
  locals : Option Saved
  optionPlace : OptionPlace
  /-- The number of functions that are being run. -/
  depth : Nat
  /-- The number of loops around the command that this process was made for. -/
  outerLoops : Nat
  umask : Nat
  /-- The working directory, by the path that has led there. -/
  directory : Text
  /-- The programs that have been found since the search path was set. -/
  tracked : List Text
  todo : List Todo

namespace State

/-- Bytes as a text of the shell. -/
def ofBytes (bytes : Bytes) : Text := bytes.map fun b => Char.ofNat b.toNat

def toBytes (s : Text) : Bytes := s.map fun c => c.toNat.toUInt8

def number (n : Nat) : Text := (toString n).toList

/-- The arguments as one text. -/
def joined (args : List Text) : Text := (args.intersperse [' ']).flatten

def has (s : State) (option : Char) : Bool := s.options.contains option

/-! ## Variables -/

def lookup? (s : State) (name : String) : Option Variable := s.vars.lookup name

def value? (s : State) (name : String) : Option Text := (s.lookup? name).bind (·.value)

/-- Variables with one of them in another state; a new one is added at the end. -/
def replaced (name : String) (v : Variable) : Variables → Variables
  | [] => [(name, v)]
  | (other, old) :: rest =>
    if other = name then (name, v) :: rest else (other, old) :: replaced name v rest

/-- Replaces a variable, or takes it away. What has been found with another search path is
forgotten. -/
def putVariable (s : State) (name : String) (v : Option Variable) : State :=
  { s with
    vars := match v with
      | some v => replaced name v s.vars
      | none => s.vars.filter (·.1 ≠ name)
    tracked := if name = "PATH" then [] else s.tracked }

def readOnlyFailure (name : String) : String := name ++ ": is read only"

/-- Sets a variable, unless it must not be changed. -/
def setVar (s : State) (name : String) (value : Text) : Except String State :=
  let old := (s.lookup? name).getD ⟨none, false, false⟩
  if old.readOnly then .error (readOnlyFailure name)
  else
    let index := (value.takeWhile Char.isDigit).foldl (fun n c => 10 * n + (c.toNat - 48)) 0
    let s := if name = "OPTIND" then { s with optionPlace := ⟨max 1 index, 0⟩ } else s
    .ok (s.putVariable name (some { old with
      value := some value, exported := old.exported || s.has 'a' }))

/-- Sets a variable for programs too. -/
def exportVar (s : State) (name : String) (value : Text) : Except String State := do
  let s ← s.setVar name value
  return s.putVariable name ((s.lookup? name).map ({ · with exported := true }))

def restoreVars (s : State) (saved : Saved) : State :=
  saved.foldl (fun s (name, v) => s.putVariable name v) s

/-- The place of a variable among those that programs are given. -/
def rank (name : String) : Nat :=
  let codes := name.toList.map fun c => c.toNat
  (16 * codes.head?.getD 0 + codes.foldl (· + ·) 0) % 39

/-- The variables that programs are given. -/
def environment (s : State) : List (String × Text) :=
  (s.vars.filterMap fun (name, v) =>
    if v.exported then v.value.map fun value => (name, value) else none).mergeSort
      fun a b => rank a.1 ≤ rank b.1

/-- The characters that separate fields. -/
def separators (s : State) : Text := (s.value? "IFS").getD [' ', '\t', '\n']

/-- The letters of the options in the order in which they are shown. -/
def optionOrder : List Char := "efIimnsxvVECabu".toList

/-- The value of a parameter that is a single text, if it is set. -/
def param? (s : State) (name : String) : Option Text :=
  match name with
  | "?" => some (number s.status)
  | "#" => some (number s.args.length)
  | "$" => some (number s.mainPid)
  | "!" => s.lastJob.map number
  | "-" => some (optionOrder.filter s.has)
  | "0" => some s.name
  | _ =>
    match name.toNat? with
    | some 0 => some s.name
    | some n => s.args[n - 1]?
    | none => s.value? name

/-- The arguments joined by the first separator. -/
def allArgs (s : State) : Text :=
  (s.args.intersperse (s.separators.take 1)).flatten

/-- The shell after it has begun processes for which it waits at once. -/
def withForeground (s : State) : State := { s with jobs := s.jobs.afterForeground }

/-! ## Diagnoses -/

/-- A diagnosis of the shell. -/
def diagnosis (s : State) (message : String) : Text :=
  let command : Text := match s.command with
    | some name => name ++ [':', ' ']
    | none => []
  s.name ++ (": " ++ toString s.line ++ ": ").toList ++ command ++ message.toList ++ ['\n']

/-! ## Scripts -/

/-- A script that is read from a text. -/
def scriptOf (s : State) (text : Text) (kind : ScriptKind) : Script :=
  ⟨.ofText (text.filter (· ≠ '\x00')) true s.documents s.aliases, none, kind, false, false⟩

/-- A script that is read from a handle. -/
def scriptFrom (s : State) (h : Handle) (kind : ScriptKind) : Script :=
  ⟨.ofText [] false s.documents s.aliases, some h, kind, false, false⟩

end State

end Shell

end Conformance
