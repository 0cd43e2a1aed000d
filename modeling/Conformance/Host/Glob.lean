import Conformance.Host.FileTree
import Conformance.Shell.Expansion

set_option autoImplicit false

/-! # Paths that match a pattern

A pattern is taken piece by piece between its slashes. A piece that is no pattern leads on as it is
written; a pattern leads to the names of the directory that it matches. A name that starts with a
point is only matched by a pattern that does, too. In the end what a path leads to has to be there.
-/

namespace Conformance

namespace Glob

open Shell (Text Pattern Surroundings)

/-- A piece of a pattern, and the slashes behind it. -/
structure Piece where
  name : Pattern
  slashes : Text

def pieces : Pattern → List Piece
  | [] => []
  | (c, quoted) :: rest =>
    match pieces rest with
    | [] => if c = '/' then [⟨[], ['/']⟩] else [⟨[(c, quoted)], []⟩]
    | piece :: others =>
      if c = '/' then
        if piece.name = [] then { piece with slashes := '/' :: piece.slashes } :: others
        else ⟨[], ['/']⟩ :: piece :: others
      else { piece with name := (c, quoted) :: piece.name } :: others

/-- The names of a directory that a piece matches. -/
def namesFor (t : FileTree) (cwd : FileId) (directory : Text) (p : Pattern) : List Text :=
  let path := Shell.State.toBytes (if directory = [] then ['.'] else directory)
  let names := ((t.list cwd path).toOption.getD []).map Shell.State.ofBytes
  (names ++ [['.'], ['.', '.']]).filter fun name =>
    (name.head? ≠ some '.' || (p.head?.map (·.1)) = some '.') && p.accepts name

/-- The paths that the pieces behind a path lead to. -/
def expand (t : FileTree) (cwd : FileId) (front : Text) : List Piece → List Text
  | [] =>
    match t.findFrom cwd (Shell.State.toBytes front) false with
    | .ok _ => [front]
    | .error _ => []
  | piece :: rest =>
    if piece.name.isGeneral then
      (namesFor t cwd front piece.name).flatMap fun name =>
        if rest.isEmpty ∧ piece.slashes = [] then [front ++ name]
        else expand t cwd (front ++ name ++ piece.slashes) rest
    else expand t cwd (front ++ piece.name.map (·.1) ++ piece.slashes) rest

def paths (t : FileTree) (cwd : FileId) (p : Pattern) : List Text :=
  (expand t cwd [] (pieces p)).mergeSort fun a b =>
    !List.lex b a fun x y => decide (x < y)

def home (user : Text) : Option Text :=
  if user = "root".toList then some "/root".toList else none

/-- What the expansion of words has to know of a tree. -/
def surroundings (t : FileTree) (cwd : FileId) : Surroundings := ⟨paths t cwd, home⟩

end Glob

end Conformance
