import Conformance.CommandLine.Arguments

set_option autoImplicit false

/-! # Reading a command line

Arguments are read from left to right, and the first fault ends the reading. The value of an option
is attached to it with an equals sign or is the next argument, which then must not start with a
hyphen unless it is a lone one. Behind a lone `--` every argument is a path.

A value that is an argument of its own, and a path, are only looked at when the reading goes on to
something else that is in order, or comes to its end: they are *pending* until then. An argument
that fits nowhere is therefore noticed before a fault in the value in front of it.
-/

namespace Conformance

structure Found where
  root : Option Path
  interpreter : Option Path
  timeout : Option Duration
  extension : Option String
  color : Option ColorChoice
  json : Bool
  deriving DecidableEq, Repr

/-- Which of the two paths. -/
inductive Slot where
  | root
  | interpreter
  deriving DecidableEq, Repr

/-- What has been read but not yet looked at. -/
inductive Pending where
  | nothing
  /-- An option whose value is, or would have been, the next argument. -/
  | option (o : ValueOption) (value : Option Bytes)
  | path (slot : Slot) (value : Bytes)
  deriving DecidableEq, Repr

/-- The state of the reading. -/
structure Scan where
  found : Found
  pending : Pending
  next : Option Slot
  pathsOnly : Bool
  deriving DecidableEq, Repr

namespace Found

def nothing : Found := ⟨none, none, none, none, none, false⟩

def has (f : Found) : ValueOption → Bool
  | .timeout => f.timeout.isSome
  | .extension => f.extension.isSome
  | .color => f.color.isSome

/-- Takes the value of an option. A missing value is noticed first, then that the option is given
twice, then a fault in the value. -/
def setOption (f : Found) (o : ValueOption) (value : Option Bytes) : Except UsageError Found :=
  match value with
  | none => .error .invalidValue
  | some value =>
    if f.has o then .error .repeated
    else match o with
      | .timeout =>
        match Utf8.decode? value with
        | none => .error .notText
        | some text =>
          match parseTimeout text with
          | .ok d => .ok { f with timeout := some d }
          | .error e => .error (.invalidTimeout e)
      | .extension =>
        match Utf8.decode? value with
        | none => .error .notText
        | some text => .ok { f with extension := some text }
      | .color =>
        match ColorChoice.parse? value with
        | none => .error .invalidValue
        | some choice => .ok { f with color := some choice }

/-- Takes a path, which must not be empty. -/
def setPath (f : Found) (slot : Slot) (value : Bytes) : Except UsageError Found :=
  if value = [] then .error .invalidValue
  else match slot with
    | .root => .ok { f with root := some ⟨value⟩ }
    | .interpreter => .ok { f with interpreter := some ⟨value⟩ }

def setFlag (f : Found) : Flag → Except UsageError Found
  | .json => if f.json then .error .repeated else .ok { f with json := true }
  | .help => .error .help
  | .version => .error .version

/-- Takes what is pending. -/
def settle (f : Found) : Pending → Except UsageError Found
  | .nothing => .ok f
  | .option o value => f.setOption o value
  | .path slot value => f.setPath slot value

/-- The command line that was read, if both paths were. -/
def toArguments (f : Found) : Except UsageError Arguments :=
  match f.root, f.interpreter with
  | some root, some interpreter =>
    .ok ⟨root, interpreter, f.timeout, f.extension.getD Settings.defaultExtension,
      f.color.getD .auto, f.json⟩
  | _, _ => .error .missingArgument

end Found

def Slot.next : Slot → Option Slot
  | .root => some .interpreter
  | .interpreter => none

namespace Scan

def hyphen : UInt8 := 0x2D

def equals : UInt8 := 0x3D

def start : Scan := ⟨.nothing, .nothing, some .root, false⟩

/-- The state with nothing pending. -/
def settle (s : Scan) : Except UsageError Scan :=
  (s.found.settle s.pending).map fun found => { s with found := found, pending := .nothing }

def readPath (s : Scan) (arg : Bytes) : Except UsageError Scan :=
  match s.next with
  | none => .error .unknownArgument
  | some slot => s.settle.map fun s => { s with pending := .path slot arg, next := slot.next }

def readFlag (s : Scan) (f : Flag) : Except UsageError Scan := do
  let s ← s.settle
  let found ← s.found.setFlag f
  return { s with found := found }

/-- Reads what stands behind two hyphens: a name, and a value if there is an equals sign. -/
def readLong (s : Scan) (word : Bytes) : Except UsageError Scan :=
  let name := word.takeWhile (· ≠ equals)
  match LongName.find? name, word.dropWhile (· ≠ equals) with
  | none, _ => .error .unknownArgument
  | some (.option o), [] => s.settle.map fun s => { s with pending := .option o none }
  | some (.option o), _ :: value => do
    let s ← s.settle
    let found ← s.found.setOption o (some value)
    return { s with found := found }
  | some (.flag f), [] => s.readFlag f
  | some (.flag _), _ :: _ => .error .unexpectedValue

/-- Reads what stands behind one hyphen. There are two short flags and both end the reading, so
that only the first letter counts. -/
def readShort (s : Scan) (letter : UInt8) : Except UsageError Scan :=
  if letter = 0x68 then s.readFlag .help
  else if letter = 0x56 then s.readFlag .version
  else .error .unknownArgument

/-- Reads an argument that does not start with a hyphen, or is a lone one. -/
def readPlain (s : Scan) (arg : Bytes) : Except UsageError Scan :=
  match s.pending with
  | .option o none => .ok { s with pending := .option o (some arg) }
  | _ => s.readPath arg

def read (s : Scan) (arg : Bytes) : Except UsageError Scan :=
  if s.pathsOnly then s.readPath arg
  else match arg with
    | first :: second :: rest =>
      if first = hyphen then
        if second = hyphen then
          if rest = [] then .ok { s with pathsOnly := true } else s.readLong rest
        else s.readShort second
      else s.readPlain arg
    | _ => s.readPlain arg

def readAll (s : Scan) : List Bytes → Except UsageError Scan
  | [] => .ok s
  | arg :: rest =>
    match s.read arg with
    | .ok s => s.readAll rest
    | .error e => .error e

end Scan

def Arguments.parse (args : List Bytes) : Except UsageError Arguments := do
  let s ← Scan.start.readAll args
  let s ← s.settle
  s.found.toArguments

end Conformance
