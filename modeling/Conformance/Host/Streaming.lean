import Conformance.Host.Launch

set_option autoImplicit false

/-! # Streaming

How tools read and write. A copying tool passes on what it reads, piece by piece; a gathering tool
reads its files to their ends before it does anything. Both take the dash for standard input. Moving
bytes takes time, so that no stream grows without bounds before the next deadline.
-/

namespace Conformance

open Shell (Text Handle)

namespace Filter

/-- How much a tool that looks for lines reads in one go. -/
def blockSize : Nat := 8192

/-- The length of so many lines at the start of some bytes, or of all of them. -/
def linesLength : (count : Nat) → Bytes → Nat
  | 0, _ => 0
  | _, [] => 0
  | count + 1, b :: rest => 1 + linesLength (if b = 0x0A then count else count + 1) rest

/-- How many of the bytes that are there a filter takes. Of a file it takes no more than it passes
on, of a pipe it may. -/
def wanted (f : Filter) (h : Handle) (held : Bytes) : Nat :=
  match f, h with
  | .firstBytes n, _ => min n World.pipeCapacity
  | .firstLines n, .file _ _ _ => linesLength n (held.take blockSize)
  | .firstLines _, _ => blockSize
  | _, _ => World.pipeCapacity

/-- What a filter passes on, and the filter for what comes next. -/
def pass (f : Filter) (bytes : Bytes) : Bytes × Filter :=
  match f with
  | .all => (bytes, f)
  | .firstBytes n => (bytes.take n, .firstBytes (n - bytes.length))
  | .firstLines n =>
    let passed := bytes.take (linesLength n bytes)
    (passed, .firstLines (n - passed.count 0x0A))
  | .each change => (bytes.filterMap change, f)

def isExhausted : Filter → Bool
  | .firstBytes 0 | .firstLines 0 => true
  | _ => false

end Filter

namespace World

/-- How long it takes to move some bytes: fifty nanoseconds each. -/
def movingTime (bytes : Bytes) : Nat := 50 * bytes.length

/-- Opens a file that a tool is given by its name; the dash is standard input. -/
def openOperand (w : World) (t : Task) (file : Bytes) : Except Errno (Handle × World) :=
  if file = [0x2D] then
    match t.handle? 0 with
    | some h => .ok (h, w)
    | none => .error .badDescriptor
  else w.openInput t file

/-- Lets a process write a diagnosis, in which a tool names itself by the word it was run by. -/
def speak (w : World) (t : Task) (text : Text) : World :=
  let spoken := match t.tool with
    | some name => Tool.renamed name.toList t.program text
    | none => text
  w.say t.pid 2 spoken

/-- What a program says if it cannot write to standard output. -/
def writeFailure (t : Task) (e : Errno) : Text :=
  let wording := match t.tool.getD "" with
    | "head" => "error writing 'standard output'"
    | "tee" => "'standard output'"
    | "yes" => "standard output"
    | "sort" => "write failed: 'standard output'"
    | _ => "write error"
  t.program ++ (": " ++ wording ++ ": " ++ e.description ++ "\n").toList

/-- Writes to standard output of a process; if that is impossible, the process says so and exits. -/
def emit (w : World) (t : Task) (bytes : Bytes) : World :=
  match w.write t.pid 1 bytes with
  | (none, w) => w
  | (some e, w) =>
    if ((w.task? t.pid).bind Task.ending?).isSome then w
    else (w.say t.pid 2 (writeFailure t e)).exit t.pid 1

/-! ## Copies -/

def copyFailure (c : Copy) (file : Bytes) (e : Errno) : Text :=
  let name := if file = [0x2D] ∧ c.program = "head" then "standard input"
    else String.ofList (Shell.State.ofBytes file)
  let message := if c.program = "head" then Tool.partFailure c.program name e
    else Tool.plainFailure c.program name e
  (message ++ "\n").toList

/-- Whether a copy would read what it writes. -/
def readsOwnOutput (w : World) (t : Task) (c : Copy) (h : Handle) : Bool :=
  match h, t.handle? 1 with
  | .file id position _, some (.file output _ _) =>
    c.program = "cat" && id = output && w.position position < (w.tree.content id).length
  | _, _ => false

def headerOf (file : Bytes) : Text :=
  let name := if file = [0x2D] then "standard input".toList else Shell.State.ofBytes file
  "==> ".toList ++ name ++ " <==\n".toList

def stepCopy (w : World) (t : Task) (c : Copy) : Option World :=
  let goOn (w : World) (c : Copy) : World := w.set { t with activity := .copying c }
  let refuse (w : World) (c : Copy) (message : Text) : Option World :=
    some ((goOn w { c with current := none, status := 1 }).speak t message)
  if (t.handle? 1).any w.isFull then none
  else match c.current, c.files with
    | none, [] => some (w.exit t.pid c.status)
    | none, file :: files =>
      let c := { c with name := file, files := files, filter := c.renewed.getD c.filter }
      match w.openOperand t file with
      | .error e => refuse w c (copyFailure c file e)
      | .ok (h, w) =>
        if readsOwnOutput w t c h then
          refuse w c ("cat: ".toList ++ Shell.State.ofBytes file
            ++ ": input file is output file\n".toList)
        else match c.header with
          | none => some (goOn w { c with current := some h })
          | some front =>
            some ((goOn w { c with current := some h, header := some ['\n'] }).emit t
              (Shell.State.toBytes (front ++ headerOf file)))
    | some h, _ =>
      if c.filter.isExhausted then some (goOn w { c with current := none })
      else match w.take h (c.filter.wanted h) with
        | .later => none
        | .atEnd => some (goOn w { c with current := none })
        | .refused e => refuse w c (copyFailure c c.name e)
        | .got bytes w =>
          let (passed, filter) := c.filter.pass bytes
          let wake := w.clock + movingTime bytes
          let w := w.set { t with wake := wake, activity := .copying { c with filter := filter } }
          some (if passed = [] then w else w.emit t passed)

/-- Writes the same text once more, as often as it fits into a block. -/
def stepRepeating (w : World) (t : Task) (text : Bytes) : Option World :=
  if (t.handle? 1).any w.isFull then none
  else
    let bytes := (List.replicate (max 1 (Filter.blockSize / text.length)) text).flatten
    some ((w.set { t with wake := w.clock + movingTime bytes }).emit t bytes)

/-! ## Gathering -/

/-- Changes a file as a tool asks for; the error if that is impossible. -/
def rewrite (w : World) (t : Task) (r : Rewriting) : Option Errno × World :=
  match w.tree.find t.cwd r.file with
  | .ok (_, .descriptor n) => w.write t.pid n (r.change [])
  | .ok (_, .fullDevice) => (if r.change [] = [] then none else some .noSpace, w)
  | _ =>
    match w.tree.write t.cwd r.file 0o644 r.change with
    | .ok (_, tree) => (none, { w with tree := tree })
    | .error e => (some e, w)

/-- Changes several files, one after the other; gives what is said about those that cannot be
changed. -/
def rewriteAll (t : Task) : World → List Rewriting → Text × World
  | w, [] => ([], w)
  | w, r :: rest =>
    let (error, w) := w.rewrite t r
    let said : Text := match error with
      | some e => (r.failure e ++ "\n").toList
      | none => []
    let (others, w) := rewriteAll t w rest
    (said ++ others, w)

/-- Does what a tool does in the end. -/
def deliver (w : World) (t : Task) (p : Product) : World :=
  let (failures, w) := rewriteAll t w p.written
  let code := if failures = [] then p.code else max 1 p.code
  if p.next = [] then
    w.set { t with activity := .leaving p.stdout (p.stderr ++ failures) code }
  else
    let w := w.set { t with activity := .series p.next none p.code }
    let w := if p.stderr = [] then w else w.speak t p.stderr
    if p.stdout = [] then w else w.emit t (Shell.State.toBytes p.stdout)

def isRegular (w : World) (h : Handle) : Bool :=
  match h with
  | .file id _ _ => (w.tree.entryAt id).any Entry.isRegular
  | _ => false

def stepGather (w : World) (t : Task) (g : Gathering) : Option World :=
  let goOn (w : World) (g : Gathering) : Option World :=
    some (w.set { t with activity := .gathering g })
  let finish (regular : Bool) (content : Except Errno Bytes) : Option World :=
    goOn w { g with
      current := none, files := g.files.tail, pieces := []
      readings := ⟨g.files.head?.getD [], regular, content⟩ :: g.readings }
  match g.current, g.files with
  | _, [] => some (w.deliver t (g.product g.readings.reverse))
  | none, file :: _ =>
    match w.openOperand t file with
    | .error e => finish false (.error e)
    | .ok (h, w) => goOn w { g with current := some h, pieces := [] }
  | some h, _ =>
    let regular := w.isRegular h
    if g.enough.any (· g.pieces.reverse.flatten) then finish regular (.ok g.pieces.reverse.flatten)
    else match w.take h fun _ => pipeCapacity with
      | .later => none
      | .atEnd => finish regular (.ok g.pieces.reverse.flatten)
      | .refused e => finish regular (.error e)
      | .got bytes w =>
        some (w.set { t with
          wake := w.clock + movingTime bytes
          activity := .gathering { g with pieces := bytes :: g.pieces } })

/-! ## Leaving -/

/-- Writes two texts and exits. What is printed is held back until the end. -/
def leave (w : World) (t : Task) (stdout stderr : Text) (code : Nat) : World :=
  let w := w.set { t with activity := .leaving [] [] code }
  let w := if stderr = [] then w else w.speak t stderr
  let w := if stdout = [] then w else w.emit t (Shell.State.toBytes stdout)
  w.exit t.pid code

end World

end Conformance
