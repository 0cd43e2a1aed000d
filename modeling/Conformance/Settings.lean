import Conformance.Error
import Conformance.Time.Duration

set_option autoImplicit false

/-! # Settings of a run

Where the scripts are, which of the files are scripts, what runs them and for how long, and how
the report is written.
-/

namespace Conformance

/-- How a report is written: as lines to be read, or as one JSON object a line. -/
inductive Format where
  | text
  | json
  deriving DecidableEq, Repr

/-- When a report is coloured. -/
inductive ColorChoice where
  | auto
  | always
  | never
  deriving DecidableEq, Repr

/-- Whether the report is coloured, given whether it goes to a terminal. -/
def ColorChoice.resolve (choice : ColorChoice) (terminal : Bool) : Bool :=
  match choice with
  | .always => true
  | .never => false
  | .auto => terminal

/-- The settings of one run. -/
structure Settings where
  /-- The directory whose scripts are run, and those of the directories below it. -/
  root : Path
  interpreter : Path
  timeout : Duration
  /-- The extension of a script, without its dot. -/
  extension : String
  color : Bool
  format : Format
  deriving DecidableEq, Repr

inductive SettingsError where
  | zeroTimeout
  | emptyExtension
  deriving DecidableEq, Repr

def SettingsError.message : SettingsError → String
  | .zeroTimeout => "timeout must be greater than zero"
  | .emptyExtension => "script extension must not be empty"

namespace Settings

def defaultExtension : String := "lua"

def defaultTimeout : Duration := Duration.ofSeconds 2

def default (root interpreter : Path) : Settings :=
  ⟨root, interpreter, defaultTimeout, defaultExtension, false, .text⟩

/-- A text without its first character if that is a dot. -/
def dropDot (extension : String) : String :=
  match extension.toList with
  | '.' :: rest => String.ofList rest
  | _ => extension

/-- Sets the extension of a script; one leading dot is dropped. -/
def withExtension (s : Settings) (extension : String) : Settings :=
  { s with extension := dropDot extension }

def withTimeout (s : Settings) (timeout : Duration) : Settings := { s with timeout := timeout }

def withColor (s : Settings) (color : Bool) : Settings := { s with color := color }

def withFormat (s : Settings) (format : Format) : Settings := { s with format := format }

/-- Refuses settings under which no run makes sense; of two faults the timeout is named. -/
def validate (s : Settings) : Except SettingsError Unit :=
  if s.timeout.isZero then .error .zeroTimeout
  else if s.extension = "" then .error .emptyExtension
  else .ok ()

/-- Whether a path names a script: its extension is the one set, byte for byte. -/
def isScript (s : Settings) (p : Path) : Bool := p.extension = some (Utf8.encode s.extension)

end Settings

end Conformance
