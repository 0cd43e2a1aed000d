import Conformance.Host.Run

set_option autoImplicit false

/-! # The command

Runs the program on the arguments it is given. The files that the run is about are named on standard
input, one path a line, as `find` lists them. They are copied into a world, in which the run takes
place: scripts are interpreted there, and nothing is changed on disk.
-/

namespace Conformance

namespace Main

partial def readLines (input : IO.FS.Stream) : IO (List String) := do
  let line ← input.getLine
  if line.isEmpty then return []
  else return trimLineEnds line :: (← readLines input)

/-- What a path leads to, as it is planted in a world. What is no file is a directory. -/
def plantAt (path : String) : IO (Bytes × Plant) := do
  try
    let body ← IO.FS.readBinFile path
    return (Utf8.encode path, .file 0o755 body.toList)
  catch _ => return (Utf8.encode path, .directory)

/-- Whether a command line asks for a run. -/
def asksForRun (args : List Bytes) : Bool :=
  match Arguments.parse args with
  | .ok _ => true
  | .error _ => false

end Main

end Conformance

open Conformance in
def main (args : List String) : IO UInt32 := do
  let args := args.map Utf8.encode
  let paths ← if Main.asksForRun args then Main.readLines (← IO.getStdin) else pure []
  let plants ← paths.mapM Main.plantAt
  let environment := [("PATH", "/usr/local/bin:/usr/bin:/bin".toList)]
  let tree := FileTree.standard.plantAll FileTree.workDirectory plants
  let (exit, _) := Program.invoke World.computer args (World.start tree environment)
  (← IO.getStdout).write ⟨exit.stdout.toArray⟩
  IO.eprint exit.stderr
  return exit.code.toUInt32
