import Conformance.Host.FileTree
import Conformance.Lookup
import Conformance.Text.Blank

set_option autoImplicit false

/-! # Images

What is run when a path is executed. An executable is run itself. A file whose first line starts
with `#!` names another program, which is run with an optional argument and the path of the file;
that program may be such a file again, up to five times in a row.

Only the first 256 bytes of a file are looked at. A line that does not end within them is cut off
there, which is allowed in the argument but not in the name of the program.

A program that is given by a bare name is sought in the directories of a search path.
-/

namespace Conformance

/-- An executable and its arguments, of which the first one is its own name. -/
structure Image where
  executable : Executable
  args : List Bytes
  deriving DecidableEq, Repr

namespace Image

def isGap (b : UInt8) : Bool := b = 0x20 || b = 0x09

/-- How much of a file is looked at to find its first line. -/
def headLimit : Nat := 256

def headOf (body : Bytes) : Bytes :=
  let head := body.take headLimit
  head ++ List.replicate (headLimit - head.length) 0

/-- The first line behind the `#!`, without the last byte of the head if the line does not end
before. None if the name of the program may have been cut off. -/
def lineOf? (head : Bytes) : Option Bytes :=
  let line := head.drop 2
  if line.contains 0x0A then some (line.takeWhile (· ≠ 0x0A))
  else if (line.dropWhile isGap).any fun b => isGap b || b = 0 then some line.dropLast
  else none

/-- The program and the optional argument that the first line of a file names. A zero byte ends
each of them. -/
def interpreterLine? (body : Bytes) : Option (Bytes × Option Bytes) :=
  match body with
  | 0x23 :: 0x21 :: _ =>
    match lineOf? (headOf body) with
    | none => none
    | some line =>
      let line := (dropTail isGap line).dropWhile isGap
      let program := line.takeWhile fun b => !isGap b && b ≠ 0
      let behind := line.drop program.length
      let argument := behind.dropWhile isGap
      if line = [] then none
      else if behind.head? = some 0 ∨ argument = [] then some (program, none)
      else some (program, some (argument.takeWhile (· ≠ 0)))
  | _ => none

/-- How many programs in a row may be looked at. -/
def chainLimit : Nat := 6

/-- What is run when a path is executed with some arguments; `links` bounds the number of files
that name another program. An empty name leads to the working directory, which cannot be run. -/
def find (t : FileTree) (cwd : FileId) : (links : Nat) → Bytes → List Bytes → Except Errno Image
  | links, path, args =>
    match t.find cwd path with
    | .error e => .error e
    | .ok (_, entry) =>
      if ¬ entry.isExecutable then .error .denied
      else match links with
        | 0 => .error .linkLoop
        | links + 1 =>
          match entry with
          | .executable e => .ok ⟨e, args⟩
          | .file _ body =>
            match interpreterLine? body with
            | none => .error .execFormat
            | some ([], _) => .error .denied
            | some (program, argument) =>
              find t cwd links program (program :: (argument.toList ++ path :: args.tail))
          | _ => .error .denied

/-! ## Search paths -/

def defaultSearchPath : Bytes := Utf8.encode "/bin:/usr/bin"

/-- The paths that a bare name may stand for: a slash is put behind every directory that has a name,
even if it ends in one. -/
def candidates (searchPath : Bytes) (name : Bytes) : List Bytes :=
  (Lookup.entries searchPath).map fun entry =>
    if entry = [] then name else entry ++ Path.slash :: name

/-- Tries paths in turn. One that does not exist is passed over; one that may not be executed is
too, but is remembered. -/
def firstOf (run : Bytes → Except Errno Image) (denied : Bool) : List Bytes → Except Errno Image
  | [] => .error (if denied then .denied else .noEntry)
  | path :: rest =>
    match run path with
    | .ok image => .ok image
    | .error e =>
      if e = .denied then firstOf run true rest
      else if e = .noEntry ∨ e = .notDirectory then firstOf run denied rest
      else .error e

/-- What is run when a program is given by its path or its bare name, where `run` says what is run
for a path. -/
def searchWith (run : Bytes → Except Errno Image) (searchPath : Option Bytes) (program : Bytes) :
    Except Errno Image :=
  if program = [] then .error .noEntry
  else if program.contains Path.slash then run program
  else if FileTree.nameLimit < program.length then .error .nameTooLong
  else firstOf run false (candidates (searchPath.getD defaultSearchPath) program)

/-- What is run when a program is executed by its path or its bare name. -/
def search (t : FileTree) (cwd : FileId) (searchPath : Option Bytes) (program : Bytes)
    (args : List Bytes) : Except Errno Image :=
  searchWith (find t cwd chainLimit · args) searchPath program

def shellPath : Bytes := Utf8.encode "/bin/sh"

/-- What is run for a path, where a file that is no program is taken for a shell script. -/
def findOrScript (t : FileTree) (cwd : FileId) (args : List Bytes) (path : Bytes) :
    Except Errno Image :=
  match find t cwd chainLimit path args with
  | .error e => if e = .execFormat then .ok ⟨.shell, shellPath :: path :: args.tail⟩ else .error e
  | image => image

/-- As `search`, but a file that is no program is taken for a shell script. -/
def searchOrScript (t : FileTree) (cwd : FileId) (searchPath : Option Bytes) (program : Bytes)
    (args : List Bytes) : Except Errno Image :=
  searchWith (findOrScript t cwd args) searchPath program

end Image

end Conformance
