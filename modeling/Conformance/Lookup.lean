import Conformance.Path.Component

set_option autoImplicit false

/-! # Looking up an interpreter

A bare interpreter name is looked up in the directories of the search path, in their order. The
first one that holds an executable file of that name wins. A path with more than one component is
left alone, and so is a name that is found nowhere: every case then reports why it cannot be
launched.
-/

namespace Conformance

namespace Lookup

/-- The byte between the directories of a search path. -/
def colon : UInt8 := 0x3A

/-- The directories of a search path; there is always at least one, and it may be empty. -/
def entries : Bytes → List Bytes
  | [] => [[]]
  | b :: rest =>
    if b = colon then [] :: entries rest
    else match entries rest with
      | [] => [[b]]
      | entry :: others => (b :: entry) :: others

/-- The files that a name may stand for, in the order of the search path. -/
def candidates (searchPath : Option Bytes) (name : Path) : List Path :=
  match searchPath with
  | none => []
  | some list => (entries list).map fun entry => Path.join ⟨entry⟩ name.bytes

/-- The interpreter that is run for a given path, where `executable` tells which paths lead to a
regular file that may be executed. -/
def resolve (executable : Path → Bool) (searchPath : Option Bytes) (interpreter : Path) : Path :=
  if 1 < interpreter.components.length then interpreter
  else ((candidates searchPath interpreter).find? executable).getD interpreter

end Lookup

end Conformance
