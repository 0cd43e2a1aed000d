import Conformance.Text.Utf8

set_option autoImplicit false

/-! # Paths

A path is the byte string it was given as. Slashes separate its pieces; empty pieces, a trailing
slash and every `.` but a leading one mean nothing. The operations here read a path from its end:
they drop what means nothing there and cut off the last piece.

A file name is split at its last dot into a stem and an extension, unless that dot is its first
byte.
-/

namespace Conformance

/-- A path, as the bytes it was given as. -/
structure Path where
  bytes : Bytes
  deriving DecidableEq, Repr, Inhabited

namespace Path

def slash : UInt8 := 0x2F

def dot : UInt8 := 0x2E

/-- The path that a text spells. -/
def ofText (text : String) : Path := ⟨Utf8.encode text⟩

/-- The path as it is shown. -/
def text (p : Path) : String := Utf8.decode p.bytes

/-- The entry `name` of the directory `dir`. An absolute name stands for itself; no slash is added
to an empty directory or after one that ends in a slash. -/
def join (dir : Path) (name : Bytes) : Path :=
  if name.head? = some slash then ⟨name⟩
  else if dir.bytes = [] ∨ dir.bytes.getLast? = some slash then ⟨dir.bytes ++ name⟩
  else ⟨dir.bytes ++ slash :: name⟩

/-! ## The last piece

The path is given reversed, so that its end comes first. -/

/-- Drops the slashes at the end of a reversed path, and every `.` piece that follows a slash. -/
def trimEnd : Bytes → Bytes
  | [] => []
  | b :: rest =>
    if b = slash then trimEnd rest
    else if b = dot ∧ rest.head? = some slash then trimEnd rest
    else b :: rest

/-- The last piece of a reversed path, as a name is read. -/
def lastPiece (reversed : Bytes) : Bytes :=
  ((trimEnd reversed).takeWhile (· ≠ slash)).reverse

/-- What stands before the last piece of a reversed path, reversed too. -/
def beforeLast (reversed : Bytes) : Bytes :=
  (trimEnd reversed).dropWhile (· ≠ slash)

/-- A piece is a name unless it is empty, `.` or `..`. -/
def isName (piece : Bytes) : Bool := piece ≠ [] && piece ≠ [dot] && piece ≠ [dot, dot]

/-- What the entry of a directory can be called. -/
structure PlainName (name : Bytes) : Prop where
  isName : isName name = true
  no_slash : slash ∉ name

instance (name : Bytes) : Decidable (PlainName name) :=
  decidable_of_iff (isName name = true ∧ slash ∉ name)
    ⟨fun h => ⟨h.1, h.2⟩, fun h => ⟨h.isName, h.no_slash⟩⟩

def fileName (p : Path) : Option Bytes :=
  let piece := lastPiece p.bytes.reverse
  if isName piece then some piece else none

def parent (p : Path) : Option Path :=
  if lastPiece p.bytes.reverse = [] then none
  else some ⟨(beforeLast p.bytes.reverse).reverse⟩

/-! ## Stem and extension -/

/-- A file name as its stem and its extension. The cut is at the last dot; a name without a dot,
or with its only dot in front, has no extension. -/
def splitName (name : Bytes) : Bytes × Option Bytes :=
  let reversed := name.reverse
  match reversed.dropWhile (· ≠ dot) with
  | [] => (name, none)
  | [_] => (name, none)
  | _ :: stem => (stem.reverse, some (reversed.takeWhile (· ≠ dot)).reverse)

def stem (p : Path) : Option Bytes := p.fileName.map fun name => (splitName name).1

def extension (p : Path) : Option Bytes := p.fileName.bind fun name => (splitName name).2

end Path

end Conformance
