import Conformance.CommandLine.Scan
import Conformance.Walk
import Conformance.Warning

set_option autoImplicit false

/-! # The program

A command line is read, settings are made of it and checked, the suites are run, and the totals
become the exit code: 0 if nothing failed, 1 if something did or the run could not be completed, 2
if the command line was refused.

Standard error has what was logged while cases were run, and then the error that the run has stopped
at, if there is one.
-/

namespace Conformance

structure Computer (σ : Type) where
  /-- The interpreter that a path or a bare name stands for. -/
  lookUp : Path → σ → Path
  /-- The machine that runs the cases, for given settings. -/
  machine : Settings → Machine σ
  depth : Nat
  terminal : Bool
  /-- What has been logged so far. -/
  diagnostics : σ → List Diagnostic
  /-- What the logger writes for a diagnostic; nothing if its filter holds it back. -/
  line : Diagnostic → String

namespace Computer

variable {σ : Type}

/-- What was logged between two states. -/
def diagnosed (computer : Computer σ) (before after : σ) : List Diagnostic :=
  (computer.diagnostics after).drop (computer.diagnostics before).length

/-- What was written to standard error for it. -/
def logged (computer : Computer σ) (before after : σ) : String :=
  String.join ((computer.diagnosed before after).map computer.line)

end Computer

/-- The settings that a command line asks for. -/
def Arguments.settings (a : Arguments) (interpreter : Path) (terminal : Bool) : Settings :=
  let s := ((Settings.default a.root interpreter).withExtension a.extension).withColor
    (a.color.resolve terminal)
  let s := s.withFormat (if a.json then .json else .text)
  match a.timeout with
  | some timeout => s.withTimeout timeout
  | none => s

namespace Program

variable {σ : Type}

/-- Runs the suites that a command line asks for; the exit code, if the run comes to its end. -/
def run (computer : Computer σ) (a : Arguments) : Walk σ Nat := do
  let interpreter ← Walk.ask (computer.lookUp a.interpreter)
  let s := a.settings interpreter computer.terminal
  Walk.orStop (fun e => .failed (.config e.message)) s.validate
  let totals ← Walk.runSuites (computer.machine s) s computer.depth
  return totals.exitCode

def versionText : String := "script-harness 0.1.0\n"

def helpText : String :=
  "Run script conformance suites against an interpreter\n\n" ++
  "Usage: script-harness [OPTIONS] <ROOT> <INTERPRETER>\n\n" ++
  "Arguments:\n" ++
  "  <ROOT>         Directory scanned recursively for test scripts\n" ++
  "  <INTERPRETER>  Interpreter under test, invoked as <interpreter> <script>\n\n" ++
  "Options:\n" ++
  "      --timeout <SECS>   Seconds each test may run before it is killed [default: 2]\n" ++
  "      --extension <EXT>  Extension that marks a file as a test script (case-sensitive)" ++
  " [default: lua]\n" ++
  "      --color <COLOR>    When to color the report [default: auto]" ++
  " [possible values: auto, always, never]\n" ++
  "      --json             Emit one JSON object per line instead of text\n" ++
  "  -h, --help             Print help\n" ++
  "  -V, --version          Print version\n"

/-- What is written to standard error when a command line is refused. -/
def usageText (e : UsageError) : String :=
  match e.message? with
  | some message => "error: " ++ message ++ "\n\nFor more information, try '--help'.\n"
  | none => "error: invalid usage\n\nFor more information, try '--help'.\n"

/-- What a run of the program leaves behind: its exit code and its two streams. -/
structure Exit where
  code : Nat
  stdout : Bytes
  stderr : String
  deriving DecidableEq, Repr

/-- What a run that has stopped early writes to standard error, and its exit code. -/
def stopped : Stop → Nat × String
  | .failed e => (1, "Error: " ++ e.message ++ "\n")
  | .overflow o => (101, o.message ++ "\n")
  | .tooDeep => (101, "the walk is too deep\n")

/-- Runs the program on the given arguments. -/
def invoke (computer : Computer σ) (args : List Bytes) (state : σ) : Exit × σ :=
  match Arguments.parse args with
  | .error .help => (⟨0, Utf8.encode helpText, ""⟩, state)
  | .error .version => (⟨0, Utf8.encode versionText, ""⟩, state)
  | .error e => (⟨e.exitCode, [], usageText e⟩, state)
  | .ok a =>
    match run computer a ⟨state, .unlimited⟩ with
    | (.ok code, session) =>
      (⟨code, session.sink.held, computer.logged state session.state⟩, session.state)
    | (.error stop, session) =>
      let (code, text) := stopped stop
      (⟨code, session.sink.held, computer.logged state session.state ++ text⟩, session.state)

end Program

end Conformance
