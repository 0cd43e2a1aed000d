import Conformance.Error
import Conformance.Text.Blank
import Conformance.Time.Binary64

set_option autoImplicit false

/-! # Directive scripts

A small scripting language whose only purpose is to make a process behave in a known way: every
line is one directive, which prints a line, sleeps, leaves a file with the process number behind,
or exits. Empty lines and lines that start with `--` are skipped. A script that runs past its last
line exits with zero; a line that is no directive ends it with a diagnosis and status two.

`Directive.read` says what one line means and `Script.run` what a whole script does. A script that
saves a process number changes files, so running one is relative to `save`, which may refuse.
-/

namespace Conformance

inductive Directive where
  /-- Writes a line to standard output. -/
  | print (text : String)
  /-- Writes a line to standard error. -/
  | eprint (text : String)
  /-- Waits for a time; `none` is a time that cannot be represented, on which the script panics. -/
  | sleep (time : Option Duration)
  /-- Writes the number of the process to a file. -/
  | saveNumber (file : Path)
  | exit (code : Nat)
  deriving DecidableEq, Repr

/-- What a line means. -/
inductive Reading where
  | skip
  | directive (d : Directive)
  | bad
  deriving DecidableEq, Repr

namespace Directive

/-- A number from 0 to 255, with an optional plus sign. -/
def exitCode? (text : List Char) : Option Nat :=
  let digits := match text with
    | '+' :: rest => rest
    | _ => text
  if digits ≠ [] ∧ digits.all Numeral.isDigit then
    let n := Numeral.natOfDigits digits
    if n < 256 then some n else none
  else none

/-- A time to sleep: any number that is not negative. A minus sign before zero does no harm. -/
def sleep? (text : String) : Option (Option Duration) :=
  match Numeral.parse? text with
  | none => none
  | some numeral =>
    match Binary64.ofNumeral numeral with
    | .finite negative significand exponent =>
      if negative ∧ significand ≠ 0 then none else some (Duration.ofSeconds? significand exponent)
    | .infinite false => some none
    | _ => none

/-- A line at its first space: the word in front of it and the text behind it. -/
def splitWord (line : List Char) : List Char × List Char :=
  (line.takeWhile (· ≠ ' '), (line.dropWhile (· ≠ ' ')).drop 1)

/-- What a line means; blanks at its ends do not matter. -/
def read (line : List Char) : Reading :=
  let line := trimBlanks line
  if line = [] ∨ line.take 2 = ['-', '-'] then .skip
  else
    let (word, rest) := splitWord line
    let text := String.ofList rest
    let orBad (d : Option Directive) : Reading := match d with
      | some d => .directive d
      | none => .bad
    match String.ofList word with
    | "print" => .directive (.print text)
    | "eprint" => .directive (.eprint text)
    | "sleep" => orBad ((sleep? text).map .sleep)
    | "pidfile" => .directive (.saveNumber (Path.ofText text))
    | "exit" => orBad ((exitCode? rest).map .exit)
    | _ => .bad

/-- The name under which diagnoses are written. -/
def programName : String := "mock_interpreter"

def badLine (number : Nat) (line : List Char) : String :=
  programName ++ ": line " ++ toString number ++ ": bad directive '"
    ++ String.ofList (trimBlanks line) ++ "'\n"

def cannotSave (file : Path) (cause : IoError) : String :=
  programName ++ ": cannot write pid file " ++ file.text ++ ": " ++ cause.message ++ "\n"

def cannotRead (script : Path) (cause : IoError) : String :=
  programName ++ ": cannot read " ++ script.text ++ ": " ++ cause.message ++ "\n"

/-- What is written when no script is named. -/
def usage : String := "usage: " ++ programName ++ " <script>\n"

end Directive

inductive ScriptEnd where
  | exit (code : Nat)
  /-- By an abort of the program that runs it. -/
  | panic
  deriving DecidableEq, Repr

namespace ScriptEnd

/-- The status of an interpreter that has panicked. -/
def panicStatus : Nat := 101

/-- The status that the interpreter exits with. -/
def status : ScriptEnd → Nat
  | .exit code => code
  | .panic => panicStatus

/-- What an interpreter writes to standard error at the end. -/
def lastWords : ScriptEnd → String
  | .exit _ => ""
  | .panic => "\nthread 'main' panicked\n"

end ScriptEnd

/-- What a script did: the two streams, the files and the end. -/
structure Transcript (σ : Type) where
  stdout : String
  stderr : String
  files : σ
  ending : ScriptEnd

namespace Script

variable {σ : Type}

/-- The effect of one line. -/
structure LineEffect (σ : Type) where
  stdout : String
  stderr : String
  files : σ
  pause : Duration
  ending : Option ScriptEnd

def runLine (save : Path → σ → Except IoError σ) (number : Nat) (line : List Char) (files : σ) :
    LineEffect σ :=
  match Directive.read line with
  | .skip => ⟨"", "", files, .zero, none⟩
  | .bad => ⟨"", Directive.badLine number line, files, .zero, some (.exit 2)⟩
  | .directive d =>
    match d with
    | .print text => ⟨text ++ "\n", "", files, .zero, none⟩
    | .eprint text => ⟨"", text ++ "\n", files, .zero, none⟩
    | .sleep (some time) => ⟨"", "", files, time, none⟩
    | .sleep none => ⟨"", "", files, .zero, some .panic⟩
    | .saveNumber file =>
      match save file files with
      | .ok files => ⟨"", "", files, .zero, none⟩
      | .error cause => ⟨"", Directive.cannotSave file cause, files, .zero, some (.exit 2)⟩
    | .exit code => ⟨"", "", files, .zero, some (.exit code)⟩

/-- What a list of lines does; the first one has the given number. -/
def runLines (save : Path → σ → Except IoError σ) : Nat → List (List Char) → σ → Transcript σ
  | _, [], files => ⟨"", "", files, .exit 0⟩
  | number, line :: rest, files =>
    let effect := runLine save number line files
    match effect.ending with
    | some ending => ⟨effect.stdout, effect.stderr, effect.files, ending⟩
    | none =>
      let later := runLines save (number + 1) rest effect.files
      ⟨effect.stdout ++ later.stdout, effect.stderr ++ later.stderr, later.files, later.ending⟩

/-- What a script does. Lines are counted from one. -/
def run (save : Path → σ → Except IoError σ) (text : String) (files : σ) : Transcript σ :=
  runLines save 1 (linesOf text.toList) files

/-- The text of the script that the first argument names, or a diagnosis and the end of a run
without a script. An argument that is not text makes the interpreter panic. -/
def load (read : Path → Except IoError Bytes) : List Bytes → Except (String × ScriptEnd) String
  | [] => .error (Directive.usage, .exit 2)
  | file :: _ =>
    if Utf8.decode? file = none then .error ("", .panic)
    else
      let refuse (cause : IoError) : Except (String × ScriptEnd) String :=
        .error (Directive.cannotRead ⟨file⟩ cause, .exit 2)
      match read ⟨file⟩ with
      | .error cause => refuse cause
      | .ok bytes =>
        match Utf8.decode? bytes with
        | some text => .ok text
        | none => refuse .notText

/-- What the interpreter does with its arguments. Only the first one counts. -/
def invoke (read : Path → σ → Except IoError Bytes) (save : Path → σ → Except IoError σ)
    (args : List Bytes) (files : σ) : Transcript σ :=
  match load (fun file => read file files) args with
  | .error (diagnosis, ending) => ⟨"", diagnosis, files, ending⟩
  | .ok text => run save text files

end Script

end Conformance
