import Conformance.Host.Tool.Wording
import Conformance.Host.World
import Conformance.Shell.Arithmetic

set_option autoImplicit false

/-! # Plans

What a tool is going to do. A tool reads its arguments once and makes a plan; nothing in a plan
depends on what happens later. Options and operands may be mixed, up to a `--`.
-/

namespace Conformance

namespace Tool

open Shell (Text)

/-- What a tool knows when it makes its plan. -/
structure Scene where
  tree : FileTree
  cwd : FileId
  environment : List (String × Text)
  /-- The permission bits that new files do not get. -/
  umask : Nat

/-- What a tool is going to do. -/
inductive Plan where
  | finish (stdout stderr : Text) (code : Nat)
  /-- Does nothing for so many nanoseconds. -/
  | pause (nanos : Nat)
  | copy (c : Copy)
  | gather (g : Gathering)
  /-- Writes the same text again and again. -/
  | repeating (text : Text)
  /-- Changes files, writes two texts and exits. -/
  | change (tree : FileTree) (stdout stderr : Text) (code : Nat)
  /-- Sends a signal to processes or, with negative numbers, to groups. -/
  | send (s : Signal) (targets : List Int)
  /-- Runs another program in its place. -/
  | become (environment : List (String × Text)) (cwd : Option FileId) (ignored : List Signal)
      (ownGroup : Bool) (args : List Text)
  | guard (limit : Limit) (args : List Text)

/-- A diagnosis of a tool, after which it exits. -/
def Plan.complain (message : String) (code : Nat) : Plan := .finish [] (message ++ "\n").toList code

def Plan.print (text : Text) : Plan := .finish text [] 0

/-- A hint that is added to some diagnoses. -/
def hint (program : String) : String :=
  "\nTry '" ++ program ++ " --help' for more information."

/-- The diagnosis that there are no operands. -/
def missingOperand (program : String) (code : Nat) : Plan :=
  .complain (program ++ ": missing operand" ++ hint program) code

/-- A text as the name of a file. -/
def bytes (s : Text) : Bytes := Shell.State.toBytes s

/-- The number that digits denote. -/
def natural? (s : Text) : Option Nat :=
  if s ≠ [] ∧ s.all Char.isDigit then some (Shell.Arithmetic.ofDigits 10 s) else none

/-! ## Options -/

/-- The options that a tool knows. -/
structure Options where
  flags : String
  valued : String
  /-- The long names of some of them. -/
  long : List (String × Char)

/-- What has been read of the arguments of a tool. -/
structure Parsed where
  flags : List Char
  values : List (Char × Text)
  operands : List Text

namespace Parsed

def has (p : Parsed) (flag : Char) : Bool := p.flags.contains flag

/-- The last value of an option. -/
def value? (p : Parsed) (option : Char) : Option Text :=
  (p.values.reverse.find? (·.1 = option)).map (·.2)

def valuesOf (p : Parsed) (option : Char) : List Text :=
  (p.values.filter (·.1 = option)).map (·.2)

/-- The operands as names of files, or a single one for standard input. -/
def files (p : Parsed) : List Bytes :=
  (if p.operands = [] then [['-']] else p.operands).map bytes

end Parsed

namespace Options

/-- Reads the letters of an argument, and the value of the last of them, which may be the next
argument. -/
def letters (o : Options) (p : Parsed) : Text → List Text → Except String (Parsed × List Text)
  | [], rest => .ok (p, rest)
  | c :: more, rest =>
    if o.flags.contains c then letters o { p with flags := p.flags ++ [c] } more rest
    else if o.valued.contains c then
      match more, rest with
      | [], [] => .error ("option requires an argument -- '" ++ str [c] ++ "'")
      | [], value :: rest => .ok ({ p with values := p.values ++ [(c, value)] }, rest)
      | _, _ => .ok ({ p with values := p.values ++ [(c, more)] }, rest)
    else .error ("invalid option -- '" ++ str [c] ++ "'")

def long? (o : Options) (p : Parsed) (name : Text) (rest : List Text) :
    Except String (Parsed × List Text) :=
  let key := name.takeWhile (· ≠ '=')
  match o.long.find? fun (n, _) => n = str key with
  | none => .error ("unrecognized option '--" ++ str name ++ "'")
  | some (_, c) =>
    match name.drop key.length with
    | _ :: value => .ok ({ p with values := p.values ++ [(c, value)] }, rest)
    | [] =>
      if o.flags.contains c then .ok ({ p with flags := p.flags ++ [c] }, rest)
      else match rest with
        | value :: rest => .ok ({ p with values := p.values ++ [(c, value)] }, rest)
        | [] => .error ("option '--" ++ str name ++ "' requires an argument")

/-- Reads arguments; `count` bounds their number. -/
def read (o : Options) : (count : Nat) → Parsed → List Text → Except String Parsed
  | 0, p, _ | _, p, [] => .ok p
  | count + 1, p, arg :: rest =>
    match arg with
    | ['-', '-'] => .ok { p with operands := p.operands ++ rest }
    | '-' :: '-' :: name =>
      match o.long? p name rest with
      | .ok (p, rest) => read o count p rest
      | .error e => .error e
    | '-' :: c :: more =>
      match o.letters p (c :: more) rest with
      | .ok (p, rest) => read o count p rest
      | .error e => .error e
    | _ => read o count { p with operands := p.operands ++ [arg] } rest

/-- As `read`, but the first operand and all behind it are left as they are. -/
def readFront (o : Options) : (count : Nat) → Parsed → List Text → Except String Parsed
  | 0, p, rest => .ok { p with operands := rest }
  | _, p, [] => .ok p
  | count + 1, p, arg :: rest =>
    match arg with
    | ['-', '-'] => .ok { p with operands := rest }
    | '-' :: '-' :: name =>
      match o.long? p name rest with
      | .ok (p, rest) => readFront o count p rest
      | .error e => .error e
    | '-' :: c :: more =>
      match o.letters p (c :: more) rest with
      | .ok (p, rest) => readFront o count p rest
      | .error e => .error e
    | _ => .ok { p with operands := arg :: rest }

/-- As `parse`, for a tool whose operands are the arguments of another program. -/
def parseFront (o : Options) (program : String) (code : Nat) (args : List Text)
    (goOn : Parsed → Plan) : Plan :=
  match o.readFront (args.length + 1) ⟨[], [], []⟩ args with
  | .ok p => goOn p
  | .error e => .complain (program ++ ": " ++ e ++ hint program) code

/-- Reads the arguments of a tool and goes on with them; a fault is diagnosed. -/
def parse (o : Options) (program : String) (code : Nat) (args : List Text)
    (goOn : Parsed → Plan) : Plan :=
  match o.read (args.length + 1) ⟨[], [], []⟩ args with
  | .ok p => goOn p
  | .error e => .complain (program ++ ": " ++ e ++ hint program) code

end Options

/-! ## Files and lines -/

/-- A plan that reads files to their ends, the dash being standard input, and makes something of
them. -/
def gather (files : List Bytes) (product : List Contents → Product) : Plan :=
  .gather ⟨none, files, [], [], none, product⟩

/-- The diagnoses of files that could not be read, where `wording` says what is written. -/
def failures (readings : List Contents) (wording : String → Errno → String) : Text :=
  readings.flatMap fun r =>
    match r.content with
    | .ok _ => []
    | .error e => (wording (str (Shell.State.ofBytes r.name)) e ++ "\n").toList

/-- The tools that never put the name of a file in quotes. -/
def bareNamers : List String := ["cmp", "grep"]

/-- The usual diagnosis of a file that could not be read. -/
def plainFailure (program : String) (name : String) (e : Errno) : String :=
  let shown := if bareNamers.contains program then name else str (quotedIfNeeded name.toList)
  program ++ ": " ++ shown ++ ": " ++ e.description

/-- The name of a file in a listing, where standard input has no name of its own. -/
def shownName (standard : String) (r : Contents) : Text :=
  if r.name = [0x2D] then standard.toList else Shell.State.ofBytes r.name

/-- The text of a file that could be read. -/
def textOf? (r : Contents) : Option Text :=
  match r.content with
  | .ok content => some (Shell.State.ofBytes content)
  | .error _ => none

def texts (readings : List Contents) : List Text := readings.filterMap textOf?

/-- A plan that makes a text of the texts of all files together. -/
def transform (program : String) (files : List Bytes) (f : Text → Text) : Plan :=
  gather files fun readings =>
    let stderr := failures readings (plainFailure program)
    .ofTexts (f (texts readings).flatten) stderr (if stderr = [] then 0 else 1)

/-- A blank within a line. -/
def isBlankChar (c : Char) : Bool := c = ' ' || c = '\t'

/-- The pieces between the occurrences of a character. -/
def splitAt (mark : Char) (s : Text) : List Text :=
  let (piece, pieces) := s.foldr (fun c (piece, pieces) =>
    if c = mark then ([], piece :: pieces) else (c :: piece, pieces)) (([], []) : Text × List Text)
  piece :: pieces

def lines (text : Text) : List Text :=
  let pieces := splitAt '\n' text
  if pieces.getLast? = some [] then pieces.dropLast else pieces

/-- Whether the last line of a text has its end. -/
def endsWithLine (text : Text) : Bool := text.getLast? = some '\n'

/-- Lines as a text. -/
def unlines (lines : List Text) : Text := lines.flatMap (· ++ ['\n'])

/-- A number behind blanks that fill up a width. -/
def column (width n : Nat) : Text :=
  let digits := (toString n).toList
  List.replicate (width - digits.length) ' ' ++ digits

end Tool

end Conformance
