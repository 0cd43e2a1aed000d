import Conformance.Shell.Pattern

set_option autoImplicit false

/-! # Fields

What an expanded word is made of, and how it is split into fields. Only characters that come from an
expansion, and were not quoted, separate fields: blanks among the separators do so together, any
other separator alone, with the blanks around it.
-/

namespace Conformance

namespace Shell

/-- Where a character of an expanded word comes from. -/
inductive Origin where
  /-- It was written so, without quotes. -/
  | plain
  | quoted
  | expanded
  deriving DecidableEq, Repr

/-- A piece of an expanded word. -/
inductive Piece where
  | char (c : Char) (origin : Origin)
  | presence
  /-- Separates two fields. -/
  | border
  deriving DecidableEq, Repr

namespace Piece

def ofText (s : Text) (origin : Origin) : List Piece := s.map (.char · origin)

/-- The characters of pieces. -/
def text (pieces : List Piece) : Text :=
  pieces.filterMap fun piece =>
    match piece with
    | .char c _ => some c
    | _ => none

/-- The characters of pieces as a pattern. -/
def pattern (pieces : List Piece) : Pattern :=
  pieces.filterMap fun piece =>
    match piece with
    | .char c origin => some (c, origin = .quoted)
    | _ => none

end Piece

namespace Fields

def defaultSeparators : Text := [' ', '\t', '\n']

/-- What has been met since the last field ended. -/
inductive Gap where
  /-- Nothing, or blanks at the start. -/
  | start
  | blanks
  /-- A separator that is no blank. -/
  | separator
  deriving DecidableEq, Repr

/-- A split in progress: the complete fields, the last first; the field in progress, its last
character first; and what has been met since the last field. -/
structure Progress where
  complete : List Pattern
  current : Option Pattern
  gap : Gap

def Progress.empty : Progress := ⟨[], none, .start⟩

/-- Ends the field in progress, if there is one. -/
def Progress.stop (p : Progress) (gap : Gap) : Progress :=
  match p.current with
  | some field => ⟨field.reverse :: p.complete, none, gap⟩
  | none => { p with gap := gap }

/-- Goes on with a separator. -/
def Progress.separate (p : Progress) (blank : Bool) : Progress :=
  match p.current, blank with
  | some _, true => p.stop .blanks
  | some _, false => p.stop .separator
  | none, true => p
  | none, false =>
    if p.gap = .blanks then { p with gap := .separator }
    else { p with complete := [] :: p.complete, gap := .separator }

/-- Goes on with a piece. -/
def Progress.add (separators : Text) (p : Progress) : Piece → Progress
  | .presence => { p with current := some (p.current.getD []) }
  | .border => p.stop .start
  | .char c origin =>
    if origin = .expanded ∧ separators.contains c then p.separate (defaultSeparators.contains c)
    else { p with current := some ((c, origin = .quoted) :: p.current.getD []) }

/-- The fields that pieces are split into. -/
def split (separators : Text) (pieces : List Piece) : List Pattern :=
  ((pieces.foldl (Progress.add separators) .empty).stop .start).complete.reverse

end Fields

end Shell

end Conformance
