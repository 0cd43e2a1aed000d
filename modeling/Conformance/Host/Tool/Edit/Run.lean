import Conformance.Host.Tool.Edit.Program

set_option autoImplicit false

/-! # Editing lines

The tool that runs a small program on every line of its input. A line is read into the pattern
space; each instruction whose address selects the line is run; at the end the pattern space is
written, and what has been queued behind it.
-/

namespace Conformance

namespace Tool

open Shell (Text)

namespace Edit

structure Run where
  pattern : Text
  hold : Text
  number : Nat
  /-- The lines that have not been read yet. -/
  rest : List Text
  /-- Whether the last line has no end. -/
  unended : Bool
  /-- Whether something has been substituted since the line was read. -/
  changed : Bool
  /-- What is written at the end of the cycle. -/
  queue : List Text
  /-- What has been written, the last piece first. -/
  out : List Text
  /-- Whether a line end is due before anything else is written. -/
  owing : Bool
  /-- The ranges that have begun, with the numbers of their last lines. -/
  active : List (Nat × Option Nat)
  /-- What has been written to files. -/
  files : List (Text × Text)

namespace Run

def put (run : Run) (s : Text) : Run :=
  if s = [] then run
  else { run with out := s :: (if run.owing then ['\n'] :: run.out else run.out), owing := false }

/-- Writes a line; the last one has an end only if it was read with one. -/
def putLine (run : Run) (s : Text) : Run :=
  if run.rest = [] ∧ run.unended then { run.put s with owing := true } else run.put (s ++ ['\n'])

def flush (run : Run) : Run := { run.queue.foldl put run with queue := [] }

def save (run : Run) (file s : Text) : Run :=
  if file = "/dev/stdout".toList then run.putLine s
  else
    let old := (run.files.lookup file).getD []
    { run with files := run.files.filter (·.1 ≠ file) ++ [(file, old ++ s ++ ['\n'])] }

def isAt (run : Run) : Address → Bool
  | .line n => run.number = n
  | .every first distance =>
    if distance = 0 then run.number = first
    else first ≤ run.number && (run.number - first) % distance = 0
  | .last => run.rest = []
  | .found r fold => (Regex.search fold r run.pattern).isSome
  | .behind _ => false

/-- Begins a range at the line, or lets it be this line alone. -/
def begin (run : Run) (i : Nat) (b : Address) : Run :=
  let begin (last : Option Nat) : Run :=
    if last.any (· ≤ run.number) then run else { run with active := (i, last) :: run.active }
  match b with
  | .line n => begin (some n)
  | .behind n => begin (some (run.number + n))
  | .every _ distance =>
    begin (some (if distance = 0 then run.number
      else (run.number + distance - 1) / distance * distance))
  | .last => if run.rest = [] then run else begin none
  | .found _ _ => begin none

def selects (run : Run) (i : Nat) : Scope → Bool × Run
  | .all => (true, run)
  | .one a => (run.isAt a, run)
  | .range a b =>
    let close : Run := { run with active := run.active.filter (·.1 ≠ i) }
    match run.active.lookup i with
    | some (some last) =>
      (run.number ≤ last, if last ≤ run.number then close else run)
    | some none => (true, if run.isAt b then close else run)
    | none =>
      match a, b with
      | .line 0, .found _ _ =>
        if run.number = 1 then (true, if run.isAt b then run else run.begin i b) else (false, run)
      | _, _ => if run.isAt a then (true, run.begin i b) else (false, run)

def next (run : Run) : Run :=
  match run.rest with
  | [] => run
  | line :: rest => { run with pattern := line, rest := rest, number := run.number + 1 }

end Run

/-- The case that replacements are in: for one character, and for all. -/
abbrev Casing := Option Char × Option Char

/-- A text in the case that holds. -/
def inCase (casing : Casing) (s : Text) : Text × Casing :=
  let apply (c : Option Char) (x : Char) : Char := match c with
    | some 'U' | some 'u' => x.toUpper
    | some 'L' | some 'l' => x.toLower
    | _ => x
  match s with
  | [] => ([], casing)
  | x :: rest =>
    let all := casing.2
    (apply (if casing.1.isSome then casing.1 else all) x :: rest.map (apply all), (none, all))

/-- The text that replaces a match. -/
def replacementFor (m : Regex.Found) (pieces : List Replacement) : Text :=
  (pieces.foldl (fun (out, casing) piece =>
    let add (s : Text) : List Text × Casing :=
      let (s, casing) := inCase casing s
      (s :: out, casing)
    match piece with
    | .text s => add s
    | .group 0 => add m.text
    | .group n => add ((m.groups.lookup n).getD [])
    | .casing c =>
      (out, if c = 'u' ∨ c = 'l' then (some c, casing.2)
        else (none, if c = 'E' then none else some c)))
    (([], (none, none)) : List Text × Casing)).1.reverse.flatten

def replaceAll (pieces : List Replacement) : (position : Nat) → Text → List Regex.Found → Text
  | _, s, [] => s
  | position, s, m :: rest =>
    let skipped := m.start - position
    s.take skipped ++ replacementFor m pieces
      ++ replaceAll pieces (m.start + m.text.length) (s.drop (skipped + m.text.length)) rest

/-- The matches that a substitution replaces. -/
def chosenMatches (nth : Nat) (global : Bool) (all : List Regex.Found) : List Regex.Found :=
  let others := all.drop (nth - 1)
  if global then others else others.take 1

/-- A character as it is listed. -/
def listed (c : Char) : Text :=
  match c with
  | '\\' => ['\\', '\\']
  | '\n' => ['\\', 'n']
  | '\t' => ['\\', 't']
  | '\r' => ['\\', 'r']
  | '\x07' => ['\\', 'a']
  | '\x08' => ['\\', 'b']
  | '\x0c' => ['\\', 'f']
  | '\x0b' => ['\\', 'v']
  | _ =>
    if 0x20 ≤ c.toNat ∧ c.toNat < 0x7F then [c]
    else '\\' :: [c.toNat / 64, c.toNat / 8 % 8, c.toNat % 8].map Nat.digitChar

/-- A text as it is listed, in lines of at most 70 characters. -/
def listing (s : Text) : Text :=
  let (lines, current) := s.foldl (fun (lines, current) c =>
    let shown := listed c
    if 69 < current.length + shown.length then (lines ++ current ++ ['\\', '\n'], shown)
    else (lines, current ++ shown)) (([], []) : Text × Text)
  lines ++ current ++ ['$', '\n']

/-- What follows an instruction. -/
inductive Flow where
  | goTo (place : Nat)
  /-- Ends the cycle; `prints` says that the pattern space is written. -/
  | finish (prints : Bool)
  /-- Starts again without reading a line. -/
  | again
  | quit (prints : Bool) (code : Nat)

/-- Runs an instruction that is a mere letter, at place `i`. -/
def runLetter (quiet : Bool) (run : Run) (i : Nat) (c : Char) : Run × Flow :=
  let on (run : Run) : Run × Flow := (run, .goTo (i + 1))
  let firstLine := run.pattern.takeWhile (· ≠ '\n')
  match c with
  | '=' => on (run.put ((toString run.number).toList ++ ['\n']))
  | 'd' => (run, .finish false)
  | 'D' =>
    if run.pattern.contains '\n' then
      ({ run with pattern := run.pattern.drop (firstLine.length + 1) }, .again)
    else (run, .finish false)
  | 'g' => on { run with pattern := run.hold }
  | 'G' => on { run with pattern := run.pattern ++ '\n' :: run.hold }
  | 'h' => on { run with hold := run.pattern }
  | 'H' => on { run with hold := run.hold ++ '\n' :: run.pattern }
  | 'x' => on { run with hold := run.pattern, pattern := run.hold }
  | 'l' => on (run.put (listing run.pattern))
  | 'n' =>
    if run.rest = [] then (run, .quit true 0)
    else on ((if quiet then run else run.putLine run.pattern).flush.next)
  | 'N' =>
    if run.rest = [] then (run, .quit true 0)
    else
      let after := run.flush.next
      on { after with pattern := run.pattern ++ '\n' :: after.pattern }
  | 'p' => on (run.putLine run.pattern)
  | 'P' => on (run.put (firstLine ++ ['\n']))
  | 'z' => on { run with pattern := [] }
  | _ => on (run.put "-\n".toList)

/-- Runs the instruction at place `i`, which the line is selected for. -/
def runAction (scene : Scene) (program : Program) (quiet : Bool) (run : Run) (i : Nat)
    (instruction : Instruction) : Run × Flow :=
  let on (run : Run) : Run × Flow := (run, .goTo (i + 1))
  let jump (label : Text) (run : Run) : Run × Flow :=
    (run, .goTo ((program.labels.lookup label).getD program.instructions.size))
  match instruction.action with
  | .block _ => on run
  | .substitute r fold pieces nth global print file =>
    match chosenMatches nth global (Regex.all fold r run.pattern) with
    | [] => on run
    | found =>
      let run := { run with
        pattern := replaceAll pieces 0 run.pattern found, changed := true }
      let run := if print then run.putLine run.pattern else run
      on (match file with
        | some file => run.save file run.pattern
        | none => run)
  | .exchange table =>
    on { run with pattern := run.pattern.map fun c => (table.lookup c).getD c }
  | .append s => on { run with queue := run.queue ++ [s] }
  | .insert s => on (run.put s)
  | .change s =>
    let inRange : Bool := !instruction.negated && (run.active.lookup i).isSome
    (if inRange then run else run.put s, .finish false)
  | .readFile file =>
    match scene.tree.read scene.cwd (bytes file) with
    | .ok body => on { run with queue := run.queue ++ [Shell.State.ofBytes body] }
    | .error _ => on run
  | .writeFile file => on (run.save file run.pattern)
  | .branch label => jump label run
  | .branchIf changed label =>
    if run.changed = changed then jump label { run with changed := false }
    else on { run with changed := false }
  | .quit silent code => (run, .quit (!silent) code)
  | .letter c => runLetter quiet run i c

/-- Runs a cycle from a place on; `fuel` bounds the number of instructions. -/
def runCycle (scene : Scene) (program : Program) (quiet : Bool) :
    (fuel : Nat) → Nat → Run → Run × Flow
  | 0, _, run => (run, .quit false 4)
  | fuel + 1, i, run =>
    match program.instructions[i]? with
    | none => (run, .finish true)
    | some instruction =>
      let (selected, run) := run.selects i instruction.scope
      if selected = instruction.negated then
        match instruction.action with
        | .block behind => runCycle scene program quiet fuel behind run
        | _ => runCycle scene program quiet fuel (i + 1) run
      else match runAction scene program quiet run i instruction with
        | (run, .goTo place) => runCycle scene program quiet fuel place run
        | result => result

def cycleLimit : Nat := 200000

/-- Runs cycles until the lines are used up; `count` bounds their number. Gives the exit status. -/
def runCycles (scene : Scene) (program : Program) (quiet : Bool) :
    (count : Nat) → Run → Run × Nat
  | 0, run => (run, 4)
  | count + 1, run =>
    let close (prints : Bool) (run : Run) : Run :=
      (if prints ∧ ¬ quiet then run.putLine run.pattern else run).flush
    match runCycle scene program quiet cycleLimit 0 run with
    | (run, .finish prints) =>
      let run := close prints run
      if run.rest = [] then (run, 0)
      else runCycles scene program quiet count { run.next with changed := false }
    | (run, .again) => runCycles scene program quiet count run.flush
    | (run, .quit prints code) => (close prints run, code)
    | (run, .goTo _) => (run, 4)

def run (scene : Scene) (program : Program) (quiet : Bool) (text : Text) : Run × Nat :=
  let start : Run :=
    ⟨[], [], 0, lines text, !endsWithLine text, false, [], [], false, [], []⟩
  if start.rest = [] then (start, 0)
  else runCycles scene program quiet (2 * text.length + 2) start.next

end Edit

def sedFailure (name : String) (e : Errno) : String :=
  if e = .isDirectory then "sed: couldn't edit " ++ name ++ ": not a regular file"
  else "sed: can't read " ++ name ++ ": " ++ e.description

def savedFiles (files : List (Text × Text)) : List Rewriting :=
  files.map fun (file, s) =>
    ⟨bytes file, fun _ => bytes s, fun e =>
      "sed: couldn't open file " ++ str file ++ ": " ++ e.description⟩

def sedProduct (scene : Scene) (program : Edit.Program) (quiet inPlace : Bool)
    (readings : List Contents) : Product :=
  let stderr := failures readings sedFailure
  let status (code : Nat) : Nat := if code ≠ 0 then code else if stderr = [] then 0 else 2
  if inPlace then
    let runs := readings.filterMap fun r =>
      (textOf? r).map fun text => (r.name, Edit.run scene program quiet text)
    let rewritten := runs.map fun (name, (run, _)) =>
      (⟨name, fun _ => bytes run.out.reverse.flatten, fun e =>
        "sed: couldn't open " ++ str (Shell.State.ofBytes name) ++ ": " ++ e.description⟩ :
        Rewriting)
    ⟨[], stderr, status ((runs.map (·.2.2)).foldl max 0),
      rewritten ++ savedFiles (runs.flatMap (·.2.1.files)), []⟩
  else
    let all := (texts readings).filter (· ≠ [])
    let ended := all.dropLast.map fun s => if endsWithLine s then s else s ++ ['\n']
    let (run, code) := Edit.run scene program quiet (ended ++ all.getLast?.toList).flatten
    ⟨run.out.reverse.flatten, stderr, status code, savedFiles run.files, []⟩

/-- The options of `sed`; an optional value of `-i` stands directly behind it. -/
def sedOptions : Options :=
  ⟨"nErsuz", "ef", [("quiet", 'n'), ("silent", 'n'), ("regexp-extended", 'E'), ("expression", 'e'),
    ("file", 'f'), ("separate", 's')]⟩

def sed (scene : Scene) (args : List Text) : Plan :=
  let isInPlace (arg : Text) : Bool := arg.take 2 = ['-', 'i'] || arg = "--in-place".toList
  let inPlace := args.any isInPlace
  sedOptions.parse "sed" 1 (args.filter (!isInPlace ·)) fun p =>
    let given := (p.values.map fun (c, v) =>
      if c = 'e' then v
      else match scene.tree.read scene.cwd (bytes v) with
        | .ok body => Shell.State.ofBytes body
        | .error _ => []).intersperse ['\n'] |>.flatten
    let go (script : Text) (operands : List Text) : Plan :=
      match Edit.read (p.has 'E' || p.has 'r') script with
      | .error e => .complain ("sed: " ++ e) 1
      | .ok program =>
        let quiet : Bool := p.has 'n' || script.take 3 = ['#', 'n', '\n'] || script = ['#', 'n']
        gather ({ p with operands := operands } : Parsed).files
          (sedProduct scene program quiet inPlace)
    match p.values, p.operands with
    | _ :: _, operands => go given operands
    | [], script :: operands => go script operands
    | [], [] =>
      .complain ("Usage: sed [OPTION]... \x7bscript-only-if-no-other-script\x7d "
        ++ "[input-file]...") 1

end Tool

end Conformance
