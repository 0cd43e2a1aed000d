import Conformance.Host.Tool.Search

set_option autoImplicit false

/-! # Tools for files

The tools that make and remove files and change their permissions. Each of them goes through its
operands in turn; one that cannot be dealt with is diagnosed, and the next one follows.
-/

namespace Conformance

namespace Tool

open Shell (Text)

/-- Work on files in progress: the tree, and what has been written so far. -/
structure Work where
  tree : FileTree
  stdout : Text
  stderr : Text

namespace Work

def start (scene : Scene) : Work := ⟨scene.tree, [], []⟩

def complain (w : Work) (message : String) : Work :=
  { w with stderr := w.stderr ++ (message ++ "\n").toList }

def tell (w : Work) (message : String) : Work :=
  { w with stdout := w.stdout ++ (message ++ "\n").toList }

/-- Goes on with a change of the tree, or with the diagnosis that it is impossible. -/
def after (w : Work) (front : String) (result : Except Errno FileTree) : Work :=
  match result with
  | .ok tree => { w with tree := tree }
  | .error e => w.complain (front ++ ": " ++ e.description)

/-- The plan to do the work. -/
def plan (w : Work) (code : Nat) : Plan :=
  .change w.tree w.stdout w.stderr (if w.stderr = [] then 0 else code)

end Work

def onEach (scene : Scene) (operands : List Text) (f : Work → Text → Work) : Plan :=
  (operands.foldl f (.start scene)).plan 1

def quote (s : Text) : String := str (quotedText s)

/-! ## Names -/

/-- What a path leads to, its last link not followed, with the directory and the name it is found
under. -/
def nameOf (t : FileTree) (cwd : FileId) (path : Bytes) :
    Except Errno (FileId × Bytes × FileId × Entry) :=
  match t.locate cwd path false with
  | .error e => .error e
  | .ok ⟨.missing _ _, _⟩ => .error .noEntry
  | .ok ⟨.found none _, _⟩ => .error .invalid
  | .ok ⟨.found (some (directory, name)) id, asDirectory⟩ =>
    match t.entryAt id with
    | some entry =>
      if asDirectory ∧ ¬ entry.isDirectory then .error .notDirectory
      else .ok (directory, name, id, entry)
    | none => .error .noEntry

def unlink (t : FileTree) (cwd : FileId) (path : Bytes) : Except Errno FileTree := do
  let (directory, name, _, entry) ← nameOf t cwd path
  if entry.isDirectory then throw .isDirectory
  else if ¬ t.admitsChange directory then throw .denied
  else return t.unbind directory name

def removeDirectory (t : FileTree) (cwd : FileId) (path : Bytes) : Except Errno FileTree := do
  let (directory, name, id, entry) ← nameOf t cwd path
  if ¬ entry.isDirectory then throw .notDirectory
  else if t.names id ≠ [] then throw .notEmpty
  else if ¬ t.admitsChange directory then throw .denied
  else return t.unbind directory name

/-- The place of a name that is still free. -/
def freePlace (t : FileTree) (cwd : FileId) (path : Bytes) : Except Errno (FileId × Bytes) := do
  match ← t.locate cwd path false with
  | ⟨.found _ _, _⟩ => throw .alreadyThere
  | ⟨.missing directory name, _⟩ =>
    if t.admitsChange directory then return (directory, name) else throw .denied

def makeDirectory (t : FileTree) (cwd : FileId) (mode : Nat) (path : Bytes) :
    Except Errno FileTree := do
  let (directory, name) ← freePlace t cwd path
  return (t.create directory name (.directory mode directory [])).2

def sortedNames (names : List (Bytes × FileId)) : List Bytes :=
  (names.map (·.1)).mergeSort fun a b =>
    compareTexts (Shell.State.ofBytes a) (Shell.State.ofBytes b) ≠ .gt

/-- A path to a name in a directory. -/
def inside (directory name : Bytes) : Bytes :=
  if FileTree.endsInSlash directory then directory ++ name
  else directory ++ FileTree.slash :: name

def lastPiece (path : Bytes) : Bytes := (FileTree.piecesOf path).getLast?.getD [FileTree.slash]

/-! ## Making and removing -/

def touch (scene : Scene) (args : List Text) : Plan :=
  Options.parse ⟨"cahmf", "dtr", [("no-create", 'c'), ("date", 'd'), ("reference", 'r')]⟩ "touch" 1
    args fun p =>
    if p.operands = [] then
      .complain ("touch: missing file operand" ++ hint "touch") 1
    else onEach scene p.operands fun w file =>
      let path := bytes file
      match w.tree.locate scene.cwd path true with
      | .error e => w.complain ("touch: cannot touch " ++ quote file ++ ": " ++ e.description)
      | .ok ⟨.found _ id, asDirectory⟩ =>
        if asDirectory ∧ ¬ (w.tree.entryAt id).any Entry.isDirectory then
          w.complain ("touch: setting times of " ++ quote file ++ ": "
            ++ Errno.notDirectory.description)
        else w
      | .ok ⟨.missing _ _, true⟩ =>
        w.complain ("touch: setting times of " ++ quote file ++ ": " ++ Errno.noEntry.description)
      | .ok ⟨.missing _ _, false⟩ =>
        if p.has 'c' then w
        else w.after ("touch: cannot touch " ++ quote file)
          ((w.tree.write scene.cwd path (0o666 &&& (0o777 ^^^ scene.umask)) id).map (·.2))

/-- Removes something, and with `whole` also what is in it; `depth` bounds the nesting. -/
def removePath (cwd : FileId) (p : Parsed) : (depth : Nat) → Work → Bytes → Work
  | 0, w, _ => w
  | depth + 1, w, path =>
    let shown := quoted path
    let front := "rm: cannot remove " ++ shown
    let tellIf (done : Work) (what : String) : Work :=
      if p.has 'v' ∧ done.stderr = w.stderr then done.tell (what ++ shown) else done
    match nameOf w.tree cwd path with
    | .error e =>
      if p.has 'f' ∧ (e = .noEntry ∨ e = .notDirectory) then w
      else w.complain (front ++ ": " ++ e.description)
    | .ok (_, _, id, entry) =>
      if entry.isDirectory then
        if p.has 'r' ∨ p.has 'R' then
          let names := sortedNames (w.tree.names id)
          let inner := names.foldl (fun w name => removePath cwd p depth w (inside path name)) w
          tellIf (inner.after front (removeDirectory inner.tree cwd path)) "removed directory "
        else if p.has 'd' then
          tellIf (w.after front (removeDirectory w.tree cwd path)) "removed directory "
        else w.complain (front ++ ": " ++ Errno.isDirectory.description)
      else tellIf (w.after front (unlink w.tree cwd path)) "removed "

def rm (scene : Scene) (args : List Text) : Plan :=
  Options.parse ⟨"frRidvI", "", [("force", 'f'), ("recursive", 'r'), ("dir", 'd'),
    ("verbose", 'v')]⟩ "rm" 1 args fun p =>
    if p.operands = [] then if p.has 'f' then .finish [] [] 0 else missingOperand "rm" 1
    else onEach scene p.operands fun w file =>
      let path := bytes file
      let piece := lastPiece path
      if (p.has 'r' ∨ p.has 'R') ∧ (piece = [0x2E] ∨ piece = [0x2E, 0x2E]) then
        w.complain ("rm: refusing to remove '.' or '..' directory: skipping " ++ quote file)
      else removePath scene.cwd p searchDepth w path

def unlinkOne (scene : Scene) (args : List Text) : Plan :=
  match args with
  | [] => missingOperand "unlink" 1
  | [file] => onEach scene args fun w _ =>
      w.after ("unlink: cannot unlink " ++ quote file) (unlink w.tree scene.cwd (bytes file))
  | _ :: extra :: _ =>
    .complain ("unlink: extra operand " ++ quote extra ++ hint "unlink") 1

/-- Makes a directory and those that lead to it; `front` is what has been made already. -/
def makeAll (cwd : FileId) (mode : Nat) (w : Work) (front : Bytes) : List Bytes → Work
  | [] => w
  | piece :: rest =>
    let path := front ++ piece
    let w : Work :=
      if w.tree.isDirectory cwd path then w
      else w.after ("mkdir: cannot create directory " ++ quoted path)
        (makeDirectory w.tree cwd mode path)
    makeAll cwd mode w (path ++ [FileTree.slash]) rest

/-! ## Permissions -/

/-- The bits that the letters of permissions stand for, in each of the three groups. -/
def permissionBits (executable : Bool) (c : Char) : Nat :=
  match c with
  | 'r' => 0o444
  | 'w' => 0o222
  | 'x' => 0o111
  | 'X' => if executable then 0o111 else 0
  | 's' => 0o6000
  | 't' => 0o1000
  | _ => 0

/-- The bits that belong to the letters of users. -/
def userBits (c : Char) : Nat :=
  match c with
  | 'u' => 0o4700
  | 'g' => 0o2070
  | 'o' => 0o1007
  | _ => 0o7777

/-- The permissions that a clause such as `u+x` leaves; none if it is no such clause. `fuel` bounds
the number of its operations. -/
def applyOperations (isDirectory : Bool) (users mask : Nat) : (fuel : Nat) → Nat → Text → Option Nat
  | 0, mode, _ | _, mode, [] => some mode
  | fuel + 1, mode, c :: rest =>
    let letters := rest.takeWhile fun c => "rwxXst".toList.contains c
    let executable : Bool := isDirectory || mode &&& 0o111 ≠ 0
    let copied (shift : Nat) : Nat := ((mode >>> shift) &&& 7) * 0o111
    let (bits, after) : Nat × Text := match rest with
      | 'u' :: after => (copied 6, after)
      | 'g' :: after => (copied 3, after)
      | 'o' :: after => (copied 0, after)
      | _ => ((letters.map (permissionBits executable)).foldl (· ||| ·) 0, rest.drop letters.length)
    let chosen := bits &&& users &&& mask
    match c with
    | '+' => applyOperations isDirectory users mask fuel (mode ||| chosen) after
    | '-' => applyOperations isDirectory users mask fuel (mode &&& (0o7777 ^^^ chosen)) after
    | '=' =>
      applyOperations isDirectory users mask fuel
        ((mode &&& (0o7777 ^^^ (users &&& 0o777))) ||| chosen) after
    | _ => none

/-- The permissions that a description leaves of others. -/
def applyMode (umask : Nat) (isDirectory : Bool) (description : Text) (mode : Nat) : Option Nat :=
  if description ≠ [] ∧ description.all fun c => '0' ≤ c && c ≤ '7' then
    let n := Shell.Arithmetic.ofDigits 8 description
    if n ≤ 0o7777 then some n else none
  else
    (splitAt ',' description).foldl (fun mode clause => mode.bind fun mode =>
      let users := clause.takeWhile fun c => "ugoa".toList.contains c
      let bits := (users.map userBits).foldl (· ||| ·) 0
      let operations := clause.drop users.length
      if operations = [] then none
      else applyOperations isDirectory (if users = [] then 0o7777 else bits)
        (if users = [] then 0o7777 ^^^ umask else 0o7777) operations.length mode operations)
      (some mode)

/-- Changes the permissions of something, and with `-R` of what is in it; `depth` bounds the
nesting. -/
def changeMode (scene : Scene) (recursive : Bool) (description : Text) :
    (depth : Nat) → Work → Bytes → Work
  | 0, w, _ => w
  | depth + 1, w, path =>
    match w.tree.find scene.cwd path with
    | .error e => w.complain ("chmod: cannot access " ++ quoted path ++ ": " ++ e.description)
    | .ok (id, entry) =>
      match applyMode scene.umask entry.isDirectory description entry.mode with
      | none => w
      | some mode =>
        let w := { w with tree := w.tree.set id (entry.withMode mode) }
        if recursive ∧ entry.isDirectory then
          (sortedNames (w.tree.names id)).foldl (fun w name =>
            changeMode scene recursive description depth w (inside path name)) w
        else w

/-- Plans `chmod`. An argument such as `-x` is a mode. -/
def chmod (scene : Scene) (args : List Text) : Plan :=
  let isMode (arg : Text) : Bool := match arg with
    | '-' :: c :: _ => "rwxXstugo".toList.contains c
    | _ => false
  let (modes, others) := args.partition isMode
  Options.parse ⟨"Rvcf", "", [("recursive", 'R'), ("verbose", 'v'), ("changes", 'c'),
    ("silent", 'f')]⟩ "chmod" 1 others fun p =>
    match modes ++ p.operands with
    | [] => missingOperand "chmod" 1
    | [mode] => .complain ("chmod: missing operand after " ++ quote mode ++ hint "chmod") 1
    | mode :: files =>
      if (applyMode scene.umask false mode 0).isNone then
        .complain ("chmod: invalid mode: " ++ quote mode ++ hint "chmod") 1
      else onEach scene files fun w file =>
        changeMode scene (p.has 'R') mode searchDepth w (bytes file)

def mkdir (scene : Scene) (args : List Text) : Plan :=
  Options.parse ⟨"pv", "m", [("parents", 'p'), ("mode", 'm'), ("verbose", 'v')]⟩ "mkdir" 1 args
    fun p =>
    let usual := 0o777 &&& (0o777 ^^^ scene.umask)
    match p.operands, (p.value? 'm').map fun m => applyMode scene.umask true m 0o777 with
    | [], _ => missingOperand "mkdir" 1
    | _, some none => .complain ("mkdir: invalid mode " ++ quote ((p.value? 'm').getD [])) 1
    | operands, mode =>
      let mode := (mode.getD none).getD usual
      onEach scene operands fun w file =>
        let path := bytes file
        if p.has 'p' then
          let front : Bytes := if path.head? = some FileTree.slash then [FileTree.slash] else []
          makeAll scene.cwd mode w front (FileTree.piecesOf path)
        else
          let done := w.after ("mkdir: cannot create directory " ++ quote file)
            (makeDirectory w.tree scene.cwd mode path)
          if p.has 'v' ∧ done.stderr = w.stderr then
            done.tell ("mkdir: created directory " ++ quote file)
          else done

def rmdir (scene : Scene) (args : List Text) : Plan :=
  Options.parse ⟨"pv", "", [("parents", 'p'), ("ignore-fail-on-non-empty", 'i')]⟩ "rmdir" 1 args
    fun p =>
    if p.operands = [] then missingOperand "rmdir" 1
    else onEach scene p.operands fun w file =>
      let remove (w : Work) (path : Bytes) : Work :=
        w.after ("rmdir: failed to remove " ++ quoted path) (removeDirectory w.tree scene.cwd path)
      let pieces := FileTree.piecesOf (bytes file)
      if p.has 'p' then
        let joined (n : Nat) : Bytes := ((pieces.take n).intersperse [FileTree.slash]).flatten
        (List.range pieces.length).reverse.foldl (fun w n => remove w (joined (n + 1))) w
      else remove w (bytes file)

end Tool

end Conformance
