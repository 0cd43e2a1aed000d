import Conformance.Settings
import Conformance.Time.Timeout

set_option autoImplicit false

/-! # The command line

What can be said on the command line and why a command line is refused. Two paths are required:
the directory that is searched for scripts and the interpreter that runs them. Three options take a
value and one flag takes none.
-/

namespace Conformance

structure Arguments where
  root : Path
  interpreter : Path
  timeout : Option Duration
  extension : String
  color : ColorChoice
  json : Bool
  deriving DecidableEq, Repr

/-- Why a command line is not one to run a suite with. -/
inductive UsageError where
  | missingArgument
  /-- An option that does not exist, or a path too many. -/
  | unknownArgument
  /-- A value that an option or a path cannot have, or none at all. -/
  | invalidValue
  /-- A value that is no timeout. -/
  | invalidTimeout (e : TimeoutError)
  | repeated
  | unexpectedValue
  | notText
  /-- Not a fault: the usage is asked for. -/
  | help
  /-- Not a fault: the version is asked for. -/
  | version
  deriving DecidableEq, Repr

namespace UsageError

/-- The exit status of a command line that is refused or answered at once. -/
def exitCode : UsageError → Nat
  | .help | .version => 0
  | _ => 2

/-- The wording of the fault in a value, where there is one. -/
def message? : UsageError → Option String
  | .invalidTimeout e => some e.message
  | _ => none

end UsageError

inductive ValueOption where
  | timeout
  | extension
  | color
  deriving DecidableEq, Repr

inductive Flag where
  | json
  | help
  | version
  deriving DecidableEq, Repr

/-- What a word behind two hyphens can name. -/
inductive LongName where
  | option (o : ValueOption)
  | flag (f : Flag)
  deriving DecidableEq, Repr

/-- The names that there are. They are not abbreviated. -/
def LongName.table : List (String × LongName) :=
  [("timeout", .option .timeout), ("extension", .option .extension), ("color", .option .color),
   ("json", .flag .json), ("help", .flag .help), ("version", .flag .version)]

def LongName.find? (word : Bytes) : Option LongName :=
  (LongName.table.find? fun entry => Utf8.encode entry.1 = word).map (·.2)

def ColorChoice.parse? (value : Bytes) : Option ColorChoice :=
  if value = Utf8.encode "auto" then some .auto
  else if value = Utf8.encode "always" then some .always
  else if value = Utf8.encode "never" then some .never
  else none

end Conformance
