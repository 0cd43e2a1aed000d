import Conformance.Path.Basic

set_option autoImplicit false

/-! # Components of a path

The clean view of a path: the list of its components, read from the front. Two spellings of a path
with the same components name the same file. Paths are ordered by their components, names by
their bytes; this is not the order of the spellings, since a slash sorts before no byte in
particular.
-/

namespace Conformance

namespace Path

/-- One component of a path. -/
inductive Component where
  /-- The slash that an absolute path starts with. -/
  | root
  /-- A leading `.`. -/
  | current
  /-- A `..`. -/
  | up
  | name (bytes : Bytes)
  deriving DecidableEq, Repr

/-- The pieces of a byte string between its slashes; there is always at least one. -/
def pieces : Bytes → List Bytes
  | [] => [[]]
  | b :: rest =>
    if b = slash then [] :: pieces rest
    else match pieces rest with
      | [] => [[b]]
      | piece :: others => (b :: piece) :: others

/-- The component that a piece stands for, if it means anything behind a slash. -/
def Component.ofPiece (piece : Bytes) : Option Component :=
  if piece = [] ∨ piece = [dot] then none
  else if piece = [dot, dot] then some .up
  else some (.name piece)

/-- The component that the first piece of a nonempty path stands for. -/
def Component.ofFirstPiece (piece : Bytes) : Option Component :=
  if piece = [] then some .root
  else if piece = [dot] then some .current
  else Component.ofPiece piece

def components (p : Path) : List Component :=
  if p.bytes = [] then []
  else match pieces p.bytes with
    | [] => []
    | first :: others => (Component.ofFirstPiece first).toList ++ others.filterMap Component.ofPiece

/-! ## Order -/

/-- The order of names: byte by byte, a proper beginning first. -/
def nameLE : Bytes → Bytes → Bool
  | [], _ => true
  | _ :: _, [] => false
  | a :: as, b :: bs => a < b || (a = b && nameLE as bs)

end Path

end Conformance
