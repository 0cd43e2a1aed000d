import Conformance.Path.Basic

set_option autoImplicit false

/-! # Test cases

A test case is a script file. It is shown under the name of the directory that holds it, its suite,
and under a name of its own, made from the file name.
-/

namespace Conformance

/-- One script to be run. -/
structure TestCase where
  path : Path
  deriving DecidableEq, Repr

namespace TestCase

/-- The name of the directory that holds the script; empty if the path does not give one. -/
def suite (c : TestCase) : String :=
  match c.path.parent.bind Path.fileName with
  | some name => Utf8.decode name
  | none => ""

def spaced (text : String) : String := text.map fun c => if c = '_' then ' ' else c

/-- The file name without its extension, underscores shown as spaces. -/
def displayName (c : TestCase) : String :=
  match c.path.stem with
  | some stem => spaced (Utf8.decode stem)
  | none => ""

end TestCase

end Conformance
