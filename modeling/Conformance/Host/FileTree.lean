import Conformance.Error

set_option autoImplicit false

/-! # File trees

A tree of directories, files and symbolic links, and how a path leads through it. Everything in the
tree has a number; a directory is a list of names with the numbers they stand for. A file thus stays
what it is when it is given another name, and it can be used by those who have opened it when it has
none any more.

A path is followed piece by piece from the root directory or from a working directory. A link on the
way is replaced by its target, at most forty times. A path, or the target of a link, that ends in a
slash must lead to a directory. Names and paths that are too long are refused.
-/

namespace Conformance

/-- The number of something in a file tree. -/
abbrev FileId := Nat

/-- The programs that come with the host. -/
inductive Executable where
  | shell
  | directives
  /-- A small tool, by its name. -/
  | tool (name : String)
  deriving DecidableEq, Repr

/-- What can be found in a tree. -/
inductive Entry where
  | directory (mode : Nat) (parent : FileId) (names : List (Bytes × FileId))
  | file (mode : Nat) (body : Bytes)
  | link (target : Bytes)
  | executable (p : Executable)
  /-- Holds nothing and swallows what is written to it. -/
  | nullDevice
  /-- Holds zero bytes without end. -/
  | zeroDevice
  /-- Holds zero bytes without end and takes nothing. -/
  | fullDevice
  /-- Stands for a descriptor of the process that opens it. -/
  | descriptor (n : Nat)
  | terminal
  deriving DecidableEq, Repr

namespace Entry

def isDirectory : Entry → Bool
  | .directory _ _ _ => true
  | _ => false

def isRegular : Entry → Bool
  | .file _ _ | .executable _ => true
  | _ => false

def mode : Entry → Nat
  | .directory mode _ _ | .file mode _ => mode
  | .link _ => 0o777
  | .executable _ => 0o755
  | _ => 0o666

/-- Whether a bit of the owner is set. All files belong to the user that everything is run by, who
has no special rights. -/
def permits (e : Entry) (bit : Nat) : Bool := e.mode &&& bit ≠ 0

def isExecutable (e : Entry) : Bool := e.isRegular && e.permits 0o100

def isReadable (e : Entry) : Bool := e.permits 0o400

def isWritable (e : Entry) : Bool := e.permits 0o200

/-- Whether everything in a directory has a name of its own, and one that can be a piece of a path. -/
def hasPlainNames : Entry → Bool
  | .directory _ _ names => (names.map (·.1)).Nodup && names.all fun entry => Path.PlainName entry.1
  | _ => true

def withMode (mode : Nat) : Entry → Entry
  | .directory _ parent names => .directory mode parent names
  | .file _ body => .file mode body
  | other => other

end Entry

/-- A file tree: what each number stands for. The root directory has the number zero. -/
structure FileTree where
  entries : Array Entry
  /-- Every directory in it has names that a directory can have. -/
  plain : ∀ entry ∈ entries.toList, entry.hasPlainNames
  deriving Repr

inductive Place where
  /-- To something; `origin` is the directory and the name it was found under, if it has been found
  under a name. -/
  | found (origin : Option (FileId × Bytes)) (id : FileId)
  /-- To a name that the directory it would be in does not have. -/
  | missing (directory : FileId) (name : Bytes)
  deriving DecidableEq, Repr

namespace FileTree

def linkLimit : Nat := 40

def nameLimit : Nat := 255

def pathLimit : Nat := 4095

def root : FileId := 0

def empty : FileTree := ⟨#[.directory 0o755 root []], by decide⟩

def entryAt (t : FileTree) (id : FileId) : Option Entry := t.entries[id]?

def set (t : FileTree) (id : FileId) (entry : Entry) : FileTree :=
  if h : entry.hasPlainNames then
    ⟨t.entries.setIfInBounds id entry, fun other hother => by
      rw [Array.toList_setIfInBounds] at hother
      rcases List.mem_or_eq_of_mem_set hother with hold | rfl
      · exact t.plain other hold
      · exact h⟩
  else t

def push (t : FileTree) (entry : Entry) : FileTree :=
  if h : entry.hasPlainNames then
    ⟨t.entries.push entry, fun other hother => by
      rw [Array.toList_push, List.mem_append, List.mem_singleton] at hother
      rcases hother with hold | rfl
      · exact t.plain other hold
      · exact h⟩
  else t

def names (t : FileTree) (directory : FileId) : List (Bytes × FileId) :=
  match t.entryAt directory with
  | some (.directory _ _ names) => names
  | _ => []

def withNames (t : FileTree) (directory : FileId) (names : List (Bytes × FileId)) : FileTree :=
  match t.entryAt directory with
  | some (.directory mode parent _) => t.set directory (.directory mode parent names)
  | _ => t

/-- The tree with a name in a directory for something that is there already. -/
def bind (t : FileTree) (directory : FileId) (name : Bytes) (id : FileId) : FileTree :=
  t.withNames directory ((t.names directory).filter (·.1 ≠ name) ++ [(name, id)])

def unbind (t : FileTree) (directory : FileId) (name : Bytes) : FileTree :=
  t.withNames directory ((t.names directory).filter (·.1 ≠ name))

/-- The tree with a new entry under a name, and its number. -/
def create (t : FileTree) (directory : FileId) (name : Bytes) (entry : Entry) :
    FileId × FileTree :=
  let id := t.entries.size
  (id, (t.push entry).bind directory name id)

/-- The tree with a new, empty directory, and its number. -/
def createDirectory (t : FileTree) (directory : FileId) (name : Bytes) : FileId × FileTree :=
  t.create directory name (.directory 0o755 directory [])

/-- The tree with a directory moved into another one. -/
def withParent (t : FileTree) (id parent : FileId) : FileTree :=
  match t.entryAt id with
  | some (.directory mode _ names) => t.set id (.directory mode parent names)
  | _ => t

/-! ## Following paths -/

/-- The byte that separates the pieces of a path. -/
def slash : UInt8 := 0x2F

def endsInSlash (path : Bytes) : Bool := path.getLast? = some slash

def piecesOf (path : Bytes) : List Bytes :=
  let (piece, pieces) := path.foldr (fun b (piece, pieces) =>
    if b = slash then ([], if piece = [] then pieces else piece :: pieces)
    else (b :: piece, pieces)) (([], []) : Bytes × List Bytes)
  if piece = [] then pieces else piece :: pieces

/-- Where a path starts that is used in a working directory. -/
def startOf (cwd : FileId) (path : Bytes) : FileId := if path.head? = some slash then root else cwd

/-- Where a path leads, and whether it was written so that it must lead to a directory. -/
structure Arrival where
  place : Place
  asDirectory : Bool
  deriving DecidableEq, Repr

/-- Follows pieces from something that was found under `origin`, with at most `links` links on the
way. A link in the last place is followed only if `last` says so or if it has to be a directory. -/
def follow (t : FileTree) (last : Bool) :
    (links : Nat) → FileId → Option (FileId × Bytes) → Bool → List Bytes → Except Errno Arrival
  | _, id, origin, asDirectory, [] => .ok ⟨.found origin id, asDirectory⟩
  | links, id, _, asDirectory, piece :: rest =>
    match t.entryAt id with
    | some (.directory mode parent names) =>
      if mode &&& 0o100 = 0 then .error .denied
      else if piece = [0x2E] then t.follow last links id none asDirectory rest
      else if piece = [0x2E, 0x2E] then t.follow last links parent none asDirectory rest
      else if nameLimit < piece.length then .error .nameTooLong
      else match names.lookup piece with
        | none => if rest = [] then .ok ⟨.missing id piece, asDirectory⟩ else .error .noEntry
        | some child =>
          match t.entryAt child with
          | some (.link target) =>
            if rest = [] ∧ ¬ last ∧ ¬ asDirectory then .ok ⟨.found (some (id, piece)) child, false⟩
            else match links with
              | 0 => .error .linkLoop
              | links + 1 =>
                t.follow last links (startOf id target) none
                  (asDirectory || (rest = [] && endsInSlash target)) (piecesOf target ++ rest)
          | _ => t.follow last links child (some (id, piece)) asDirectory rest
    | _ => .error .notDirectory
  termination_by links _ _ _ pieces => (links, pieces.length)

/-- Where a path leads from a working directory, whatever it must be. -/
def locate (t : FileTree) (cwd : FileId) (path : Bytes) (last : Bool) : Except Errno Arrival :=
  if path = [] then .error .noEntry
  else if pathLimit < path.length then .error .nameTooLong
  else t.follow last linkLimit (startOf cwd path) none (endsInSlash path) (piecesOf path)

/-- What a path leads to, as `locate`, if it leads to something. -/
def findFrom (t : FileTree) (cwd : FileId) (path : Bytes) (last : Bool) :
    Except Errno (FileId × Entry) :=
  match t.locate cwd path last with
  | .ok ⟨.found _ id, asDirectory⟩ =>
    match t.entryAt id with
    | some entry =>
      if asDirectory ∧ ¬ entry.isDirectory then .error .notDirectory else .ok (id, entry)
    | none => .error .noEntry
  | .ok ⟨.missing _ _, _⟩ => .error .noEntry
  | .error e => .error e

/-- What a path leads to, links followed. -/
def find (t : FileTree) (cwd : FileId) (path : Bytes) : Except Errno (FileId × Entry) :=
  t.findFrom cwd path true

/-- What a path leads to, if that may be read. -/
def findReadable (t : FileTree) (cwd : FileId) (path : Bytes) : Except Errno (FileId × Entry) :=
  match t.find cwd path with
  | .ok (id, entry) => if entry.isReadable then .ok (id, entry) else .error .denied
  | .error e => .error e

/-! ## Operations -/

def isDirectory (t : FileTree) (cwd : FileId) (path : Bytes) : Bool :=
  match t.find cwd path with
  | .ok (_, entry) => entry.isDirectory
  | .error _ => false

/-- The names of the entries of the directory that a path leads to. -/
def list (t : FileTree) (cwd : FileId) (path : Bytes) : Except Errno (List Bytes) :=
  match t.find cwd path with
  | .ok (_, .directory mode _ names) =>
    if mode &&& 0o400 = 0 then .error .denied else .ok (names.map (·.1))
  | .ok _ => .error .notDirectory
  | .error e => .error e

/-- What an executable looks like when it is read: the first bytes of machine code. -/
def machineCode : Bytes := [0x7F, 0x45, 0x4C, 0x46, 0x02, 0x01, 0x01, 0x00, 0xFF]

def content (t : FileTree) (id : FileId) : Bytes :=
  match t.entryAt id with
  | some (.file _ body) => body
  | some (.executable _) => machineCode
  | _ => []

def read (t : FileTree) (cwd : FileId) (path : Bytes) : Except Errno Bytes :=
  match t.findReadable cwd path with
  | .ok (_, .directory _ _ _) => .error .isDirectory
  | .ok (id, _) => .ok (t.content id)
  | .error e => .error e

/-- Whether names may be added to a directory and taken from it. -/
def admitsChange (t : FileTree) (directory : FileId) : Bool :=
  match t.entryAt directory with
  | some (.directory mode _ _) => mode &&& 0o300 = 0o300
  | _ => false

/-- Makes the file that a path leads to hold `change` of what it held; a new file starts empty and
gets the permission bits `mode`. A path that asks for a directory is refused, even if the file is
there. -/
def write (t : FileTree) (cwd : FileId) (path : Bytes) (mode : Nat) (change : Bytes → Bytes) :
    Except Errno (FileId × FileTree) :=
  match t.locate cwd path true with
  | .error e => .error e
  | .ok ⟨_, true⟩ => .error .isDirectory
  | .ok ⟨.missing directory name, false⟩ =>
    if t.admitsChange directory then .ok (t.create directory name (.file mode (change [])))
    else .error .denied
  | .ok ⟨.found _ id, false⟩ =>
    match t.entryAt id with
    | some (.directory _ _ _) => .error .isDirectory
    | some (.executable _) => .error .textBusy
    | some (.file bits body) =>
      if bits &&& 0o200 = 0 then .error .denied
      else .ok (id, t.set id (.file bits (change body)))
    | some _ => .ok (id, t)
    | none => .error .noEntry

/-- Whether a path leads to a regular file that may be executed. -/
def isExecutable (t : FileTree) (cwd : FileId) (path : Bytes) : Bool :=
  match t.find cwd path with
  | .ok (_, entry) => entry.isExecutable
  | .error _ => false

/-- The names that lead to a directory from the root, the innermost first; `fuel` bounds their
number, and the number of entries is enough. -/
def trail (t : FileTree) : (fuel : Nat) → FileId → List Bytes
  | 0, _ => []
  | fuel + 1, id =>
    if id = root then []
    else match t.entryAt id with
      | some (.directory _ parent _) =>
        match (t.names parent).find? (·.2 = id) with
        | some (name, _) => name :: t.trail fuel parent
        | none => []
      | _ => []

def pathOf (t : FileTree) (id : FileId) : Bytes :=
  match t.trail t.entries.size id with
  | [] => [slash]
  | names => names.reverse.flatMap (slash :: ·)

end FileTree

end Conformance
