import Conformance.Host.Signal
import Conformance.Host.Standard
import Conformance.Shell.State
import Conformance.Supervisor

set_option autoImplicit false

/-! # A world of processes

A file tree, a clock and the processes that run beside each other. A process has descriptors, which
lead to files, devices and pipes, and belongs to a group that can be killed as a whole. What a
process is doing is its `Activity`; a process that has ended stays in the world with its ending
until the world is swept.

This module holds the world and what any process can do in it: read, write, open, and send signals.
-/

namespace Conformance

open Shell (Text Handle Access Descriptors)

/-- What a copying process does with the bytes on their way. -/
inductive Filter where
  | all
  | firstBytes (count : Nat)
  | firstLines (count : Nat)
  /-- Changes each byte by itself, or drops it. -/
  | each (change : UInt8 → Option UInt8)

/-- A copy in progress. -/
structure Copy where
  program : String
  current : Option Handle
  name : Bytes
  files : List Bytes
  filter : Filter
  /-- The filter that each file starts with. -/
  renewed : Option Filter
  /-- What stands in front of the name of the next file, if names are written at all. -/
  header : Option Text
  status : Nat

/-- What a tool has read of one of its files: the content, or why there is none. -/
structure Contents where
  name : Bytes
  regular : Bool
  content : Except Errno Bytes

/-- A change of a file that a tool makes in the end. -/
structure Rewriting where
  file : Bytes
  change : Bytes → Bytes
  /-- The diagnosis if the file cannot be written. -/
  failure : Errno → String

/-- What a tool does in the end. -/
structure Product where
  stdout : Text
  stderr : Text
  code : Nat
  written : List Rewriting
  /-- The programs that are run afterwards, one after the other. -/
  next : List (List Text)

/-- The product of a tool that only writes two texts. -/
def Product.ofTexts (stdout stderr : Text) (code : Nat) : Product := ⟨stdout, stderr, code, [], []⟩

/-- A tool that reads its files to their ends before it does anything. -/
structure Gathering where
  current : Option Handle
  files : List Bytes
  pieces : List Bytes
  /-- What has been read, the last file first. -/
  readings : List Contents
  /-- Says that no more need be read of a file, if that can be known before its end. -/
  enough : Option (Bytes → Bool)
  product : List Contents → Product

/-- How a process with a limited time is ended. -/
structure Limit where
  nanos : Nat
  signal : Signal
  /-- How much later it is killed, if it is still there then. -/
  grace : Option Nat
  /-- Whether its own status is told even if its time was over. -/
  keepsStatus : Bool

/-- A process whose time is limited, and that of the limit. -/
structure Guard where
  pid : Nat
  limit : Limit
  deadline : Nat
  late : Bool

/-- What a process is doing. -/
inductive Activity where
  | shell (s : Shell.State)
  /-- Runs the lines of a directive script, the first of which has the given number. -/
  | directives (number : Nat) (lines : List (List Char))
  | copying (c : Copy)
  | gathering (g : Gathering)
  /-- Waits for another process, which is sent a signal when its time is over. -/
  | guarding (g : Guard)
  /-- Runs programs one after the other, one of which may be running; the status is that of the
  programs that have ended. -/
  | series (commands : List (List Text)) (running : Option (Nat × Text)) (status : Nat)
  | repeating (text : Bytes)
  /-- Is about to write two texts and to exit. -/
  | leaving (stdout stderr : Text) (code : Nat)
  | ended (ending : Ending)

structure Task where
  /-- The name that its program was run by. -/
  program : Text
  /-- The name of the tool that its program is, if it is one. -/
  tool : Option String
  pid : Nat
  parent : Nat
  group : Nat
  cwd : FileId
  environment : List (String × Text)
  descriptors : Descriptors
  ignored : List Signal
  /-- The signals that have arrived and for which something is to be run. -/
  pending : List Signal
  stopped : Bool
  /-- The time before which the process does nothing. -/
  wake : Nat
  activity : Activity

/-- What is in a pipe: the pieces that were written, the last one first, and their length. -/
structure Pipe where
  pieces : List Bytes
  length : Nat
  deriving DecidableEq, Repr

namespace Pipe

def empty : Pipe := ⟨[], 0⟩

def ofBytes (bytes : Bytes) : Pipe := if bytes = [] then empty else ⟨[bytes], bytes.length⟩

/-- The bytes in a pipe, in the order in which they were written. -/
def bytes (p : Pipe) : Bytes := p.pieces.reverse.flatten

def push (p : Pipe) (piece : Bytes) : Pipe := ⟨piece :: p.pieces, p.length + piece.length⟩

end Pipe

/-- The state of a computer. -/
structure World where
  tree : FileTree
  clock : Nat
  tasks : List Task
  /-- A number that no process, pipe or position has yet. -/
  fresh : Nat
  pipes : List (Nat × Pipe)
  positions : List (Nat × Nat)
  /-- The pipes that are read from outside this world. -/
  captured : List Nat
  /-- The working directory of the processes that are launched from outside. -/
  cwd : FileId
  /-- The environment of these processes. -/
  environment : List (String × Text)
  /-- What those who launch these processes have logged. -/
  diagnostics : List Diagnostic := []

namespace Task

def ending? (t : Task) : Option Ending :=
  match t.activity with
  | .ended ending => some ending
  | _ => none

/-- The descriptors that a process keeps open, also those it has put aside. -/
def allDescriptors (t : Task) : Descriptors :=
  match t.activity with
  | .ended _ => []
  | .shell s => t.descriptors ++ s.todo.flatMap fun todo =>
      match todo with
      | .restore saved => saved.filterMap fun (n, h) => h.map fun h => (n, h)
      | .script { handle := some h, .. } => [(0, h)]
      | _ => []
  | _ => t.descriptors

def handle? (t : Task) (descriptor : Nat) : Option Handle := t.descriptors.lookup descriptor

/-- Makes a descriptor lead somewhere, or nowhere. -/
def setHandle (t : Task) (descriptor : Nat) (h : Option Handle) : Task :=
  let others := t.descriptors.filter (·.1 ≠ descriptor)
  { t with descriptors := match h with
      | some h => (descriptor, h) :: others
      | none => others }

def finish (t : Task) (ending : Ending) : Task := { t with activity := .ended ending }

def exit (t : Task) (code : Nat) : Task := t.finish (.exited (code % 256))

end Task

namespace World

/-- The world before any process. -/
def start (tree : FileTree) (environment : List (String × Text)) : World :=
  ⟨tree, 0, [], 1000, [], [], [], FileTree.workDirectory, environment, []⟩

def searchPath (w : World) : Option Bytes :=
  (w.environment.lookup "PATH").map Shell.State.toBytes

def task? (w : World) (pid : Nat) : Option Task := w.tasks.find? (·.pid = pid)

def set (w : World) (t : Task) : World :=
  { w with tasks := w.tasks.map fun u => if u.pid = t.pid then t else u }

/-- Adds a process and gives it a number. -/
def add (w : World) (t : Task) : Nat × World :=
  (w.fresh, { w with tasks := w.tasks ++ [{ t with pid := w.fresh }], fresh := w.fresh + 1 })

/-- The ending of a process; one that is not in the world has exited unseen. -/
def ending? (w : World) (pid : Nat) : Option Ending :=
  match w.task? pid with
  | some t => t.ending?
  | none => some (.exited 127)

/-- Drops processes whose endings have been collected. -/
def reap (w : World) (pids : List Nat) : World :=
  { w with tasks := w.tasks.filter (!pids.contains ·.pid) }

/-- Drops the processes that have ended, and all that only they used. -/
def sweep (w : World) : World :=
  let tasks := w.tasks.filter fun t => t.ending?.isNone
  if tasks.isEmpty then { w with tasks := [], pipes := [], positions := [], captured := [] }
  else { w with tasks := tasks }

/-! ## Pipes and files -/

def newPipe (w : World) : Nat × World :=
  (w.fresh, { w with pipes := (w.fresh, .empty) :: w.pipes, fresh := w.fresh + 1 })

def pipe (w : World) (p : Nat) : Pipe := (w.pipes.lookup p).getD .empty

def setPipe (w : World) (p : Nat) (content : Pipe) : World :=
  { w with pipes := w.pipes.map fun q => if q.1 = p then (p, content) else q }

def dropPipe (w : World) (p : Nat) : World := { w with pipes := w.pipes.filter (·.1 ≠ p) }

/-- Whether a process holds a handle. -/
def isHeld (w : World) (h : Handle) : Bool :=
  w.tasks.any fun t => t.allDescriptors.any (·.2 = h)

def hasWriter (w : World) (p : Nat) : Bool := w.isHeld (.pipeOutput p)

def hasReader (w : World) (p : Nat) : Bool :=
  w.captured.contains p || w.isHeld (.pipeInput p) ||
    w.tasks.any fun t => match t.activity with
      | .shell s => s.todo.any fun todo => match todo with
        | .fill _ q _ => p = q
        | _ => false
      | _ => false

/-- The most that is put into a pipe before it is read. -/
def pipeCapacity : Nat := 65536

/-- Whether a writer has to wait. -/
def isFull (w : World) (h : Handle) : Bool :=
  match h with
  | .pipeOutput p => !w.captured.contains p && w.hasReader p && pipeCapacity ≤ (w.pipe p).length
  | _ => false

def position (w : World) (n : Nat) : Nat := (w.positions.lookup n).getD 0

def setPosition (w : World) (n offset : Nat) : World :=
  { w with positions := w.positions.map fun q => if q.1 = n then (n, offset) else q }

def openAt (w : World) (id : FileId) (access : Access) : Handle × World :=
  (.file id w.fresh access,
    { w with positions := (w.fresh, 0) :: w.positions, fresh := w.fresh + 1 })

/-- Opens what a process has found. -/
def openEntry (w : World) (t : Task) (id : FileId) (entry : Entry) (access : Access) :
    Except Errno (Handle × World) :=
  match entry with
  | .nullDevice => .ok (.null, w)
  | .zeroDevice => .ok (.zero, w)
  | .fullDevice => .ok (.full, w)
  | .terminal => .error .noDevice
  | .descriptor n =>
    match t.handle? n with
    | some h => .ok (h, w)
    | none => .error .noEntry
  | _ => .ok (w.openAt id access)

/-- Opens a file for reading. -/
def openInput (w : World) (t : Task) (path : Bytes) : Except Errno (Handle × World) :=
  match w.tree.findReadable t.cwd path with
  | .ok (id, entry) => w.openEntry t id entry .read
  | .error e => .error e

/-- Opens a file for writing. If it is opened for nothing else, it is emptied. A new file gets the
permission bits `mode`. -/
def openOutput (w : World) (t : Task) (path : Bytes) (access : Access) (mode : Nat) :
    Except Errno (Handle × World) :=
  match w.tree.write t.cwd path mode (if access = .write then fun _ => [] else id) with
  | .ok (id, tree) =>
    match tree.entryAt id with
    | some entry => { w with tree := tree }.openEntry t id entry access
    | none => .error .noEntry
  | .error e => .error e

/-- What comes of an attempt to read. -/
inductive Intake where
  | got (bytes : Bytes) (w : World)
  | atEnd
  | later
  | refused (e : Errno)

/-- Reads some bytes; `amount` says how many of those that are there are taken. -/
def take (w : World) (h : Handle) (amount : Bytes → Nat) : Intake :=
  match h with
  | .null => .atEnd
  | .zero | .full =>
    .got (List.replicate (min pipeCapacity (amount (List.replicate pipeCapacity 0))) 0) w
  | .file id n access =>
    if access = .write ∨ access = .append then .refused .badDescriptor
    else if (w.tree.entryAt id).any Entry.isDirectory then .refused .isDirectory
    else
      let rest := (w.tree.content id).drop (w.position n)
      if rest.isEmpty then .atEnd
      else
        let bytes := rest.take (amount rest)
        .got bytes (w.setPosition n (w.position n + bytes.length))
  | .pipeInput p =>
    let held := (w.pipe p).bytes
    if held.isEmpty then if w.hasWriter p then .later else .atEnd
    else .got (held.take (amount held)) (w.setPipe p (.ofBytes (held.drop (amount held))))
  | .pipeOutput _ => .refused .badDescriptor

/-- A file's content with bytes written into it at an offset. -/
def overwrite (body : Bytes) (offset : Nat) (bytes : Bytes) : Bytes :=
  let front := body.take offset
  front ++ List.replicate (offset - front.length) 0 ++ bytes ++ body.drop (offset + bytes.length)

/-! ## Signals -/

/-- What a signal does to a process. -/
def receive (t : Task) (s : Signal) : Task :=
  if t.ending?.isSome then t
  else if s = Signal.kill then t.finish (.signaled s)
  else
    let t := if s = Signal.resume then { t with stopped := false } else t
    if t.ignored.contains s ∧ s ≠ Signal.stop then t
    else
      let trapped : Bool := match t.activity with
        | .shell state => (state.traps.lookup s).isSome
        | _ => false
      if trapped ∧ s ≠ Signal.stop then
        { t with pending := (t.pending.filter (· ≠ s) ++ [s]).mergeSort }
      else match Signal.effect s with
        | .none | .goOn => t
        | .halt => { t with stopped := true }
        | .die => t.finish (.signaled s)

/-- Sends a signal to a process. -/
def signal (w : World) (pid : Nat) (s : Signal) : World :=
  { w with tasks := w.tasks.map fun t => if t.pid = pid then receive t s else t }

def signalGroup (w : World) (group : Nat) (s : Signal) : World :=
  { w with tasks := w.tasks.map fun t => if t.group = group then receive t s else t }

/-! ## Writing -/

/-- Writes bytes to a descriptor of a process; gives the error if that is impossible. Writing to a
pipe that nobody reads sends the process a signal. -/
def write (w : World) (pid descriptor : Nat) (bytes : Bytes) : Option Errno × World :=
  match (w.task? pid).bind (·.handle? descriptor) with
  | some .null | some .zero => (none, w)
  | some .full => (if bytes = [] then none else some .noSpace, w)
  | some (.file id n access) =>
    if access = .read then (if bytes = [] then none else some .badDescriptor, w)
    else match w.tree.entryAt id with
      | some (.file mode body) =>
        let offset := if access = .append then body.length else w.position n
        let tree := w.tree.set id (.file mode (overwrite body offset bytes))
        (none, { w with tree := tree }.setPosition n (offset + bytes.length))
      | _ => (none, w)
  | some (.pipeOutput p) =>
    if w.hasReader p then (none, w.setPipe p ((w.pipe p).push bytes))
    else (some .brokenPipe, w.signal pid Signal.brokenPipe)
  | some (.pipeInput _) | none => (if bytes = [] then none else some .badDescriptor, w)

/-- Writes a text to a descriptor of a process, if that is possible. -/
def say (w : World) (pid descriptor : Nat) (text : Text) : World :=
  (w.write pid descriptor (Shell.State.toBytes text)).2

def exit (w : World) (pid code : Nat) : World :=
  match w.task? pid with
  | some t => if t.ending?.isSome then w else w.set (t.exit code)
  | none => w

/-! ## Files as a directive script uses them -/

/-- A path that has no zero byte, as bytes. -/
def checked (path : Path) : Except IoError Bytes :=
  if path.bytes.contains 0 then .error .zeroInName else .ok path.bytes

def readWhole (w : World) (cwd : FileId) (path : Path) : Except IoError Bytes := do
  let bytes ← checked path
  (w.tree.read cwd bytes).mapError .os

/-- Writes the number of a process to a file. -/
def saveNumber (w : World) (cwd : FileId) (pid : Nat) (path : Path) : Except IoError World := do
  let bytes ← checked path
  let (_, tree) ← (w.tree.write cwd bytes 0o644 fun _ => Utf8.encode (toString pid)).mapError .os
  return { w with tree := tree }

end World

end Conformance
