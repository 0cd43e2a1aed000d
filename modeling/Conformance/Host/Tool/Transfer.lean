import Conformance.Host.Tool.Files

set_option autoImplicit false

/-! # Copying and moving

The tools that give files new places or new names: they copy, move and link them, and change their
sizes. A file whose destination is a directory keeps its name and is put into it.
-/

namespace Conformance

namespace Tool

open Shell (Text)

/-- Where something with a name is put by a tool with this destination: into the destination, if
that is a directory. -/
def destinationFor (t : FileTree) (cwd : FileId) (destination source : Bytes) : Bytes :=
  if t.isDirectory cwd destination then inside destination (lastPiece source) else destination

/-- Goes through the operands of a tool whose last operand is a destination. -/
def toDestination (program verb : String) (scene : Scene) (p : Parsed)
    (f : Work → Bytes → Bytes → Work) : Plan :=
  match p.value? 't', p.operands.reverse with
  | none, [] => .complain (program ++ ": missing " ++ verb ++ "file operand" ++ hint program) 1
  | none, [one] =>
    .complain (program ++ ": missing destination file operand after " ++ quote one
      ++ hint program) 1
  | given, all =>
    let (destination, sources) : Text × List Text := match given with
      | some d => (d, all.reverse)
      | none => (all.head?.getD [], all.tail.reverse)
    let path := bytes destination
    if 1 < sources.length ∧ ¬ scene.tree.isDirectory scene.cwd path then
      let cause := match scene.tree.find scene.cwd path with
        | .error e => e.description
        | .ok _ => Errno.notDirectory.description
      .complain (program ++ ": target " ++ quote destination ++ ": " ++ cause) 1
    else onEach scene sources fun w source =>
      let file := bytes source
      f w file (if p.has 'T' then path else destinationFor w.tree scene.cwd path file)

def copiedMode (scene : Scene) (keeps : Bool) (mode : Nat) : Nat :=
  if keeps then mode else mode &&& (0o777 ^^^ scene.umask)

/-- Whether a directory is in another one or is that one; `depth` bounds the nesting. -/
def isWithin (t : FileTree) (outer : FileId) : (depth : Nat) → FileId → Bool
  | 0, _ => false
  | depth + 1, id =>
    id = outer || (id ≠ FileTree.root && match t.entryAt id with
      | some (.directory _ parent _) => isWithin t outer depth parent
      | _ => false)

/-- Copies something; `depth` bounds the nesting. -/
def copyPath (scene : Scene) (p : Parsed) : (depth : Nat) → Work → Bytes → Bytes → Work
  | 0, w, _, _ => w
  | depth + 1, w, source, target =>
    let cwd := scene.cwd
    let recursive : Bool := p.has 'r' || p.has 'R' || p.has 'a'
    let keeps : Bool := p.has 'p' || p.has 'a'
    match w.tree.findFrom cwd source (!(recursive || p.has 'd' || p.has 'P')) with
    | .error e => w.complain ("cp: cannot stat " ++ quoted source ++ ": " ++ e.description)
    | .ok (id, .directory mode _ names) =>
      if ¬ recursive then
        w.complain ("cp: -r not specified; omitting directory " ++ quoted source)
      else
        let made : Work :=
          if w.tree.isDirectory cwd target then w
          else w.after ("cp: cannot create directory " ++ quoted target)
            (makeDirectory w.tree cwd (copiedMode scene keeps mode) target)
        let within : Bool := match made.tree.find cwd target with
          | .ok (other, _) => isWithin made.tree id made.tree.entries.size other
          | .error _ => false
        if made.stderr ≠ w.stderr then made
        else if within then
          made.complain ("cp: cannot copy a directory, " ++ quoted source ++ ", into itself, "
            ++ quoted target)
        else (sortedNames names).foldl (fun w name =>
          copyPath scene p depth w (inside source name) (inside target name)) made
    | .ok (_, .link text) =>
      w.after ("cp: cannot create symbolic link " ++ quoted target) do
        let (directory, name) ← freePlace w.tree cwd target
        return (w.tree.create directory name (.link text)).2
    | .ok (id, entry) =>
      match w.tree.find cwd target with
      | .ok (other, _) =>
        if other = id then
          w.complain ("cp: " ++ quoted source ++ " and " ++ quoted target ++ " are the same file")
        else if p.has 'n' then w
        else if ¬ entry.isReadable then
          w.complain ("cp: cannot open " ++ quoted source ++ " for reading: "
            ++ Errno.denied.description)
        else w.after ("cp: cannot create regular file " ++ quoted target)
          ((w.tree.write cwd target 0o644 fun _ => w.tree.content id).map (·.2))
      | .error _ =>
        if ¬ entry.isReadable then
          w.complain ("cp: cannot open " ++ quoted source ++ " for reading: "
            ++ Errno.denied.description)
        else w.after ("cp: cannot create regular file " ++ quoted target) do
          let (made, tree) ← w.tree.write cwd target 0o644 fun _ => w.tree.content id
          return tree.set made (entry.withMode (copiedMode scene keeps entry.mode))

def cp (scene : Scene) (args : List Text) : Plan :=
  Options.parse ⟨"rRapfdPLnTvui", "t", [("recursive", 'r'), ("archive", 'a'), ("force", 'f'),
    ("no-clobber", 'n'), ("target-directory", 't'), ("no-target-directory", 'T')]⟩ "cp" 1 args
    fun p => toDestination "cp" "" scene p fun w source target =>
      let done := copyPath scene p searchDepth w source target
      if p.has 'v' ∧ done.stderr = w.stderr then
        done.tell (quoted source ++ " -> " ++ quoted target)
      else done

/-- Gives something another name, in the place of what has that name. -/
def rename (t : FileTree) (cwd : FileId) (source target : Bytes) : Except Errno FileTree := do
  let (directory, name, id, entry) ← nameOf t cwd source
  let (newDirectory, newName) ← match ← t.locate cwd target false with
    | ⟨.found (some place) other, _⟩ => do
      match t.entryAt other with
      | some (.directory _ _ names) =>
        if ¬ entry.isDirectory then throw .isDirectory
        else if names ≠ [] then throw .notEmpty
      | _ => if entry.isDirectory then throw .notDirectory
      pure place
    | ⟨.found none _, _⟩ => throw .invalid
    | ⟨.missing d n, asDirectory⟩ =>
      if asDirectory ∧ ¬ entry.isDirectory then throw .notDirectory
      pure (d, n)
  if ¬ t.admitsChange directory ∨ ¬ t.admitsChange newDirectory then throw .denied
  if entry.isDirectory ∧ isWithin t id t.entries.size newDirectory then throw .invalid
  let t := (t.unbind directory name).bind newDirectory newName id
  return if entry.isDirectory then t.withParent id newDirectory else t

def mv (scene : Scene) (args : List Text) : Plan :=
  Options.parse ⟨"fnTvui", "t", [("force", 'f'), ("no-clobber", 'n'), ("target-directory", 't'),
    ("no-target-directory", 'T')]⟩ "mv" 1 args fun p =>
    toDestination "mv" "" scene p fun w source target =>
      let there := w.tree.findFrom scene.cwd target false
      match nameOf w.tree scene.cwd source, there with
      | .error e, _ => w.complain ("mv: cannot stat " ++ quoted source ++ ": " ++ e.description)
      | .ok (_, _, id, entry), .ok (other, old) =>
        if id = other then
          w.complain ("mv: " ++ quoted source ++ " and " ++ quoted target ++ " are the same file")
        else if p.has 'n' then w
        else if entry.isDirectory ∧ ¬ old.isDirectory then
          w.complain ("mv: cannot overwrite non-directory " ++ quoted target ++ " with directory "
            ++ quoted source)
        else if ¬ entry.isDirectory ∧ old.isDirectory then
          w.complain ("mv: cannot overwrite directory " ++ quoted target ++ " with non-directory")
        else w.after ("mv: cannot move " ++ quoted source ++ " to " ++ quoted target)
          (rename w.tree scene.cwd source target)
      | .ok (_, _, _, entry), .error _ =>
        match rename w.tree scene.cwd source target with
        | .error .invalid =>
          w.complain ("mv: cannot move " ++ quoted source
            ++ (if entry.isDirectory then " to a subdirectory of itself, " else " to ")
            ++ quoted target)
        | result => w.after ("mv: cannot move " ++ quoted source ++ " to " ++ quoted target) result

def makeLink (scene : Scene) (p : Parsed) (w : Work) (source target : Bytes) : Work :=
  let cwd := scene.cwd
  let soft := p.has 's'
  let kind := if soft then "symbolic" else "hard"
  let front := "ln: failed to create " ++ kind ++ " link " ++ quoted target
  let tree : FileTree :=
    if p.has 'f' then ((unlink w.tree cwd target).toOption).getD w.tree else w.tree
  if soft then
    w.after front do
      let (directory, name) ← freePlace tree cwd target
      return (tree.create directory name (.link source)).2
  else match w.tree.findFrom cwd source false with
    | .error e => w.complain ("ln: failed to access " ++ quoted source ++ ": " ++ e.description)
    | .ok (id, entry) =>
      if entry.isDirectory then
        w.complain ("ln: " ++ str (Shell.State.ofBytes source)
          ++ ": hard link not allowed for directory")
      else w.after front do
        let (directory, name) ← freePlace tree cwd target
        return tree.bind directory name id

def ln (scene : Scene) (args : List Text) : Plan :=
  Options.parse ⟨"sfnTvirLP", "t", [("symbolic", 's'), ("force", 'f'), ("no-dereference", 'n'),
    ("target-directory", 't'), ("no-target-directory", 'T')]⟩ "ln" 1 args fun p =>
    match p.operands with
    | [one] =>
      onEach scene [one] fun w source =>
        makeLink scene p w (bytes source) (lastPiece (bytes source))
    | operands =>
      let keepsLink : Bool := p.has 'n' && match operands.getLast? with
        | some d => match scene.tree.findFrom scene.cwd (bytes d) false with
          | .ok (_, .link _) => true
          | _ => false
        | none => false
      let p := if keepsLink then { p with flags := 'T' :: p.flags } else p
      toDestination "ln" "" scene p (makeLink scene p)

def truncate (scene : Scene) (args : List Text) : Plan :=
  Options.parse ⟨"co", "sr", [("size", 's'), ("no-create", 'c')]⟩ "truncate" 1 args fun p =>
    match (p.value? 's').bind fun v => count? (v.dropWhile (· = '+')), p.value? 's' with
    | none, none => .complain ("truncate: you must specify either '--size' or '--reference'"
        ++ hint "truncate") 1
    | none, some v => .complain ("truncate: Invalid number: " ++ quote v) 1
    | some n, v =>
      if p.operands = [] then .complain ("truncate: missing file operand" ++ hint "truncate") 1
      else onEach scene p.operands fun w file =>
        let resize (body : Bytes) : Bytes :=
          let size := if v.any (·.head? = some '+') then body.length + n else n
          body.take size ++ List.replicate (size - body.length) 0
        w.after ("truncate: cannot open " ++ quote file ++ " for writing")
          ((w.tree.write scene.cwd (bytes file) 0o644 resize).map (·.2))

end Tool

end Conformance
