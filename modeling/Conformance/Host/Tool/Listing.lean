import Conformance.Host.Tool.Files

set_option autoImplicit false

/-! # Listing files

The tools that show what is in a tree: the names in directories, the files below a path that satisfy
tests, where links and paths lead, and whether two files are the same.
-/

namespace Conformance

namespace Tool

open Shell (Text)

/-! ## Listing -/

/-- A name as `ls` shows it. -/
def listedName (p : Parsed) (name : Bytes) (entry : Option Entry) : Text :=
  let mark : Text := match entry with
    | some (.directory _ _ _) => if p.has 'F' ∨ p.has 'p' then ['/'] else []
    | some (.link _) => if p.has 'F' then ['@'] else []
    | some e => if p.has 'F' ∧ e.isExecutable then ['*'] else []
    | none => []
  Shell.State.ofBytes name ++ mark ++ ['\n']

/-- The names that `ls` shows of a directory, sorted. -/
def listedNames (p : Parsed) (parent id : FileId) (names : List (Bytes × FileId)) :
    List (Bytes × FileId) :=
  let own : List (Bytes × FileId) :=
    if p.has 'a' then [([0x2E], id), ([0x2E, 0x2E], parent)] else []
  let shown := names.filter fun (name, _) =>
    p.has 'a' || p.has 'A' || name.head? ≠ some 0x2E
  let sorted := (own ++ shown).mergeSort fun a b =>
    compareTexts (Shell.State.ofBytes a.1) (Shell.State.ofBytes b.1) ≠ .gt
  if p.has 'r' then sorted.reverse else sorted

/-- The sections of a listing of a directory, and with `-R` of those in it; `depth` bounds the
nesting. -/
def listSections (t : FileTree) (p : Parsed) : (depth : Nat) → Text → FileId → List Text
  | 0, _, _ => []
  | depth + 1, path, id =>
    match t.entryAt id with
    | some (.directory _ parent names) =>
      let shown := listedNames p parent id names
      let body := shown.flatMap fun (name, child) => listedName p name (t.entryAt child)
      let below := if p.has 'R' then
          shown.flatMap fun (name, child) =>
            if (t.entryAt child).any Entry.isDirectory ∧ name ≠ [0x2E] ∧ name ≠ [0x2E, 0x2E] then
              listSections t p depth
                (Shell.State.ofBytes (inside (bytes path) name)) child
            else []
        else []
      (path ++ [':', '\n'] ++ body) :: below
    | _ => []

def ls (scene : Scene) (args : List Text) : Plan :=
  Options.parse ⟨"aA1dFpRrtSUClhngioqsuvxHL", "IwTk", [("all", 'a'), ("almost-all", 'A'),
    ("directory", 'd'), ("recursive", 'R'), ("reverse", 'r'), ("classify", 'F')]⟩ "ls" 2 args
    fun p =>
    let operands := if p.operands = [] then [['.']] else p.operands
    let sorted := operands.mergeSort fun a b => compareTexts a b ≠ .gt
    let look (file : Text) : Except Errno (FileId × Entry) :=
      match scene.tree.find scene.cwd (bytes file) with
      | .ok e => .ok e
      | .error _ => scene.tree.findFrom scene.cwd (bytes file) false
    let found := sorted.map fun file => (file, look file)
    let stderr := found.flatMap fun (file, r) => match r with
      | .error e => ("ls: cannot access " ++ quote file ++ ": " ++ e.description ++ "\n").toList
      | .ok _ => []
    let plain := found.flatMap fun (file, r) => match r with
      | .ok (_, entry) =>
        if entry.isDirectory ∧ ¬ p.has 'd' then [] else listedName p (bytes file) (some entry)
      | .error _ => []
    let sections := found.flatMap fun (file, r) => match r with
      | .ok (id, entry) =>
        if entry.isDirectory ∧ ¬ p.has 'd' then listSections scene.tree p searchDepth file id
        else []
      | .error _ => []
    let headless : Bool := operands.length = 1 && !p.has 'R'
    let bodies := if headless then sections.map fun s => (s.dropWhile (· ≠ '\n')).drop 1
      else sections
    let all := (if plain = [] then [] else [plain]) ++ bodies
    .finish ((all.intersperse ['\n']).flatten) stderr (if stderr = [] then 0 else 2)

/-- A file as `find` looks at it: the path, its depth and what it is. -/
structure Sighting where
  path : Bytes
  depth : Nat
  entry : Entry

/-- Everything at and below a path; `fuel` bounds the nesting. -/
def sightings (t : FileTree) (cwd : FileId) : (fuel : Nat) → Nat → Bytes → List Sighting
  | 0, _, _ => []
  | fuel + 1, depth, path =>
    match t.findFrom cwd path false with
    | .ok (_, entry) =>
      let below := match entry with
        | .directory _ _ names => (sortedNames names).flatMap fun name =>
            sightings t cwd fuel (depth + 1) (inside path name)
        | _ => []
      ⟨path, depth, entry⟩ :: below
    | .error _ => []

def kindLetter (e : Entry) : Text :=
  match e with
  | .directory _ _ _ => ['d']
  | .link _ => ['l']
  | e => if e.isRegular then ['f'] else ['c']

/-- Whether a file satisfies all tests of `find`. -/
def satisfies (s : Sighting) : (fuel : Nat) → List Text → Except String Bool
  | 0, _ | _, [] => .ok true
  | fuel + 1, test :: rest =>
    let name := Shell.State.ofBytes (lastPiece s.path)
    let operand (arg : Text → Bool) : Except String Bool := match rest with
      | a :: rest => (satisfies s fuel rest).map (arg a && ·)
      | [] => .error ("missing argument to '" ++ str test ++ "'")
    let number (f : Nat → Bool) : Except String Bool :=
      operand fun a => f (Shell.Arithmetic.ofDigits 10 (a.dropWhile (!Char.isDigit ·)))
    match str test with
    | "-name" => operand fun a => Shell.Pattern.accepts (a.map (·, false)) name
    | "-path" => operand fun a =>
        Shell.Pattern.accepts (a.map (·, false)) (Shell.State.ofBytes s.path)
    | "-type" => operand fun a => (splitAt ',' a).contains (kindLetter s.entry)
    | "-maxdepth" => number fun n => s.depth ≤ n
    | "-mindepth" => number fun n => n ≤ s.depth
    | "-empty" => (satisfies s fuel rest).map ((match s.entry with
        | .directory _ _ names => names = []
        | .file _ body => body = []
        | _ => false) && ·)
    | "-print" => satisfies s fuel rest
    | "!" | "-not" => match rest with
      | a :: b :: rest => do
        let unwanted ← satisfies s fuel [a, b]
        let others ← satisfies s fuel rest
        return !unwanted && others
      | _ => .error "expected an expression after '!'"
    | _ => .error ("unknown predicate '" ++ str test ++ "'")

def find (scene : Scene) (args : List Text) : Plan :=
  let isTest (arg : Text) : Bool := arg.head? = some '-' || arg = ['!'] || arg = ['(']
  let paths := args.takeWhile (!isTest ·)
  let tests := args.drop paths.length
  let paths := if paths = [] then [['.']] else paths
  let stderr := paths.flatMap fun path =>
    match scene.tree.findFrom scene.cwd (bytes path) false with
    | .ok _ => []
    | .error e => ("find: " ++ quote path ++ ": " ++ e.description ++ "\n").toList
  let seen := paths.flatMap fun path => sightings scene.tree scene.cwd searchDepth 0 (bytes path)
  match seen.mapM fun s => (satisfies s (tests.length + 1) tests).map fun b => (s, b) with
  | .error e => .complain ("find: " ++ e) 1
  | .ok answers =>
    .finish ((answers.filter (·.2)).flatMap fun (s, _) => Shell.State.ofBytes s.path ++ ['\n'])
      stderr (if stderr = [] then 0 else 1)

/-! ## Paths -/

/-- The path of what a path leads to; `missing` says that the last piece need not be there. -/
def truePath (t : FileTree) (cwd : FileId) (path : Bytes) (missing : Bool) :
    Except Errno Bytes := do
  match ← t.locate cwd path true with
  | ⟨.missing directory name, _⟩ =>
    if missing then return inside (t.pathOf directory) name else throw .noEntry
  | ⟨.found origin id, asDirectory⟩ =>
    let isDirectory : Bool := (t.entryAt id).any Entry.isDirectory
    if isDirectory then return t.pathOf id
    else if asDirectory then throw .notDirectory
    else match origin with
      | some (directory, name) => return inside (t.pathOf directory) name
      | none => return t.pathOf id

def readlink (scene : Scene) (args : List Text) : Plan :=
  Options.parse ⟨"femnqsvz", "", [("canonicalize", 'f'), ("canonicalize-existing", 'e'),
    ("canonicalize-missing", 'm'), ("no-newline", 'n')]⟩ "readlink" 1 args fun p =>
    if p.operands = [] then missingOperand "readlink" 1
    else
      let follows : Bool := p.has 'f' || p.has 'e' || p.has 'm'
      let results := p.operands.map fun file =>
        if follows then
          (truePath scene.tree scene.cwd (bytes file) (!p.has 'e')).toOption
        else match scene.tree.findFrom scene.cwd (bytes file) false with
          | .ok (_, .link target) => some target
          | _ => none
      let shown := (results.filterMap id).flatMap fun path => Shell.State.ofBytes path ++ ['\n']
      .finish (if p.has 'n' ∧ p.operands.length = 1 then shown.dropLast else shown) []
        (if results.all Option.isSome then 0 else 1)

def realpath (scene : Scene) (args : List Text) : Plan :=
  Options.parse ⟨"emqsLPz", "", []⟩ "realpath" 1 args fun p =>
    if p.operands = [] then missingOperand "realpath" 1
    else onEach scene p.operands fun w file =>
      match truePath scene.tree scene.cwd (bytes file) (!p.has 'e') with
      | .ok path => w.tell (str (Shell.State.ofBytes path))
      | .error e => w.complain ("realpath: " ++ str file ++ ": " ++ e.description)

/-- A format of `stat` filled in. -/
def fillStat (t : FileTree) (id : FileId) (file : Text) (entry : Entry) : Text → Text
  | '%' :: c :: rest =>
    (match c with
      | 'n' => file
      | 's' => (toString (match entry with
          | .directory _ _ _ => 4096
          | .link target => target.length
          | _ => (t.content id).length)).toList
      | 'a' => Nat.toDigits 8 entry.mode
      | 'i' => (toString id).toList
      | 'F' => (match entry with
          | .directory _ _ _ => "directory"
          | .link _ => "symbolic link"
          | .file _ [] => "regular empty file"
          | e => if e.isRegular then "regular file" else "character special file").toList
      | '%' => ['%']
      | c => ['%', c]) ++ fillStat t id file entry rest
  | c :: rest => c :: fillStat t id file entry rest
  | [] => []

def stat (scene : Scene) (args : List Text) : Plan :=
  Options.parse ⟨"Lft", "c", [("format", 'c'), ("dereference", 'L')]⟩ "stat" 1 args fun p =>
    if p.operands = [] then missingOperand "stat" 1
    else onEach scene p.operands fun w file =>
      match scene.tree.findFrom scene.cwd (bytes file) (p.has 'L') with
      | .error e => w.complain ("stat: cannot statx " ++ quote file ++ ": " ++ e.description)
      | .ok (id, entry) =>
        w.tell (str (fillStat scene.tree id file entry ((p.value? 'c').getD "%n".toList)))

/-- The first difference between two texts: the number of the byte and of the line. -/
def firstDifference : Nat → Nat → Text → Text → Option (Nat × Nat × Option Bool)
  | byte, line, a :: s, b :: t =>
    if a = b then firstDifference (byte + 1) (if a = '\n' then line + 1 else line) s t
    else some (byte, line, none)
  | _, _, [], [] => none
  | byte, line, [], _ => some (byte, line, some true)
  | byte, line, _, [] => some (byte, line, some false)

def cmp (args : List Text) : Plan :=
  Options.parse ⟨"slb", "ni", [("silent", 's'), ("quiet", 's')]⟩ "cmp" 2 args fun p =>
    match p.operands with
    | [] => .complain ("cmp: missing operand after 'cmp'" ++ hint "cmp") 2
    | first :: others =>
      let second := others.head?.getD ['-']
      gather [bytes first, bytes second] fun readings =>
        match failures readings (plainFailure "cmp"), texts readings with
        | [], [a, b] =>
          match firstDifference 1 1 a b with
          | none => .ofTexts [] [] 0
          | some (byte, line, ended) =>
            if p.has 's' then .ofTexts [] [] 1
            else match ended with
              | none =>
                let place := "byte " ++ toString byte ++ ", line " ++ toString line
                .ofTexts (first ++ [' '] ++ second ++ (" differ: " ++ place ++ "\n").toList) [] 1
              | some isFirst =>
                let name := str (if isFirst then first else second)
                let complete := endsWithLine (if isFirst then a else b)
                let place := if complete then "line " ++ toString (line - 1)
                  else "in line " ++ toString line
                .ofTexts [] (if byte = 1 then ("cmp: EOF on " ++ name ++ " which is empty\n").toList
                  else ("cmp: EOF on " ++ name ++ " after byte " ++ toString (byte - 1) ++ ", "
                    ++ place ++ "\n").toList) 1
        | stderr, _ => .ofTexts [] stderr 2

end Tool

end Conformance
