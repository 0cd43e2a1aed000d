import Conformance.Host.Tool.Search

set_option autoImplicit false

/-! # Editing programs

The programs of the tool that edits lines, and how they are read. A program is a sequence of
instructions, each with an address that selects lines.

A block is an instruction that passes over its body unless its address selects the line, so that a
program is a plain sequence and a branch is a place in it.
-/

namespace Conformance

namespace Tool

open Shell (Text)

namespace Edit

/-- A condition on a line. -/
inductive Address where
  | line (n : Nat)
  /-- Every line from the first one on, at a distance. -/
  | every (first distance : Nat)
  | last
  | found (r : Regex) (fold : Bool)
  /-- So many lines behind the start of a range. -/
  | behind (n : Nat)

/-- The lines that an instruction is for. -/
inductive Scope where
  | all
  | one (a : Address)
  | range (a b : Address)

/-- A piece of a replacement. -/
inductive Replacement where
  | text (s : Text)
  | group (n : Nat)
  /-- Changes the case of what follows, as the letter says. -/
  | casing (c : Char)

/-- What an instruction does. -/
inductive Action where
  /-- Passes over a block if the address does not select the line. -/
  | block (behind : Nat)
  | substitute (r : Regex) (fold : Bool) (replacement : List Replacement) (nth : Nat)
      (global print : Bool) (file : Option Text)
  | exchange (table : List (Char × Char))
  | append (s : Text)
  | insert (s : Text)
  | change (s : Text)
  | readFile (s : Text)
  | writeFile (file : Text)
  | branch (label : Text)
  | branchIf (changed : Bool) (label : Text)
  | quit (silent : Bool) (code : Nat)
  /-- One of the instructions that are a mere letter. -/
  | letter (c : Char)

structure Instruction where
  scope : Scope
  negated : Bool
  action : Action

structure Program where
  instructions : Array Instruction
  labels : List (Text × Nat)

/-! ## Reading -/

/-- What has been read of a program: the instructions, the open blocks, and the last expression. -/
structure Draft where
  instructions : Array Instruction
  begin : List Nat
  labels : List (Text × Nat)
  last : Option Regex

/-- A text up to a mark, which a backslash hides, and what follows. A hidden mark stands for itself;
`newline` says that an `n` behind a backslash is a line end. -/
def upTo (mark : Char) (newline : Bool) : Text → Option (Text × Text)
  | [] => none
  | '\\' :: d :: rest =>
    (upTo mark newline rest).map fun (s, after) =>
      (if d = mark then d :: s
        else if d = 'n' ∧ newline then '\n' :: s
        else '\\' :: d :: s, after)
  | c :: rest =>
    if c = mark then some ([], rest)
    else if c = '\n' ∧ newline then none
    else (upTo mark newline rest).map fun (s, after) => (c :: s, after)

/-- The failure to read a program: the wording, and what had not been read yet. -/
abbrev Read (α : Type) := Except (String × Text) α

/-- A regular expression; an empty one is the last one. -/
def regexOf (extended : Bool) (d : Draft) (s rest : Text) : Read (Regex × Draft) :=
  if s = [] then
    match d.last with
    | some r => .ok (r, d)
    | none => .error ("no previous regular expression", rest)
  else match Regex.parse extended s with
    | .ok r => .ok (r, { d with last := some r })
    | .error e => .error (e, rest)

/-- Reads the letters behind the expression of an address. -/
def readFold (s : Text) : Bool × Text :=
  match s with
  | 'I' :: rest => (true, rest)
  | _ => (false, s)

def readAddress (extended : Bool) (d : Draft) (s : Text) : Read (Option Address × Draft × Text) :=
  let expression (mark : Char) (rest : Text) : Read (Option Address × Draft × Text) :=
    match upTo mark true rest with
    | none => .error ("unterminated address regex", [])
    | some (text, rest) => do
      let (r, d) ← regexOf extended d text rest
      let (fold, rest) := readFold rest
      return (some (.found r fold), d, rest)
  match s with
  | '$' :: rest => .ok (some .last, d, rest)
  | '/' :: rest => expression '/' rest
  | '\\' :: mark :: rest => expression mark rest
  | c :: rest =>
    let (n, after) := Shell.Arithmetic.readNatural (s.dropWhile (· = '+'))
    if c = '+' then .ok (some (.behind n), d, after)
    else if c.isDigit then
      let digits := s.takeWhile Char.isDigit
      let n := Shell.Arithmetic.ofDigits 10 digits
      match s.drop digits.length with
      | '~' :: rest =>
        let distance := rest.takeWhile Char.isDigit
        .ok (some (.every n (Shell.Arithmetic.ofDigits 10 distance)), d, rest.drop distance.length)
      | rest => .ok (some (.line n), d, rest)
    else .ok (none, d, c :: rest)
  | [] => .ok (none, d, [])

/-- The pieces of a replacement. -/
def readReplacement : Text → List Replacement
  | [] => []
  | '&' :: rest => .group 0 :: readReplacement rest
  | '\\' :: c :: rest =>
    (if c.isDigit then .group (c.toNat - 48)
      else if "ULEul".toList.contains c then .casing c
      else if c = 'n' then .text ['\n']
      else if c = 't' then .text ['\t']
      else .text [c]) :: readReplacement rest
  | c :: rest => .text [c] :: readReplacement rest

/-- The text of an instruction that adds lines: up to a line end that no backslash hides. -/
def readLines : Text → Text × Text
  | [] => (['\n'], [])
  | '\n' :: rest => (['\n'], rest)
  | '\\' :: c :: rest =>
    let (s, rest) := readLines rest
    (c :: s, rest)
  | c :: rest =>
    let (s, rest) := readLines rest
    (c :: s, rest)

/-- The text behind the letter of an instruction that adds lines. -/
def readAdded (s : Text) : Option (Text × Text) :=
  match s.dropWhile isBlankChar with
  | '\\' :: '\n' :: rest => some (readLines rest)
  | '\\' :: rest =>
    match rest.dropWhile isBlankChar with
    | '\n' :: more => some (readLines more)
    | _ => some (readLines rest)
  | [] => none
  | rest => some (readLines rest)

/-- The flags of a substitution: which match, all matches, printing, folding and the file. -/
structure Flags where
  nth : Nat
  global : Bool
  print : Bool
  fold : Bool
  file : Option Text

def readName (s : Text) : Text × Text :=
  let s := s.dropWhile isBlankChar
  let name := s.takeWhile (· ≠ '\n')
  (name, s.drop name.length)

/-- Reads the flags of a substitution; `count` bounds their number. -/
def readFlags : (count : Nat) → Flags → Text → Read (Flags × Text)
  | 0, f, s => .ok (f, s)
  | count + 1, f, s =>
    match s with
    | 'g' :: rest => readFlags count { f with global := true } rest
    | 'p' :: rest => readFlags count { f with print := true } rest
    | 'i' :: rest | 'I' :: rest => readFlags count { f with fold := true } rest
    | 'w' :: rest =>
      let (name, rest) := readName rest
      .ok ({ f with file := some name }, rest)
    | c :: rest =>
      if c.isDigit then
        let digits := s.takeWhile Char.isDigit
        readFlags count { f with nth := Shell.Arithmetic.ofDigits 10 digits } (s.drop digits.length)
      else if c = ';' ∨ c = '\n' ∨ c = '\x7d' ∨ c = '#' ∨ isBlankChar c then .ok (f, s)
      else .error ("unknown option to \x60s'", rest)
    | [] => .ok (f, [])

/-- The instructions that are a mere letter. -/
def letters : List Char := "=dDgGhHlnNpPxzF".toList

/-- The characters of an exchange, with its escapes resolved. -/
def unescapeSet : Text → Text
  | '\\' :: 'n' :: rest => '\n' :: unescapeSet rest
  | '\\' :: '\\' :: rest => '\\' :: unescapeSet rest
  | c :: rest => c :: unescapeSet rest
  | [] => []

def readLabel (s : Text) : Text × Text :=
  let s := s.dropWhile isBlankChar
  let label := s.takeWhile fun c => c ≠ '\n' && c ≠ ';' && c ≠ '\x7d'
  (dropTail isBlankChar label, s.drop label.length)

def readAction (extended : Bool) (d : Draft) (c : Char) (s : Text) : Read (Action × Draft × Text) :=
  let added (f : Text → Action) : Read (Action × Draft × Text) :=
    match readAdded s with
    | some (text, rest) => .ok (f text, d, '\n' :: rest)
    | none => .error ("expected \\ after \x60a', \x60c' or \x60i'", [])
  let name (f : Text → Action) : Read (Action × Draft × Text) :=
    let (name, rest) := readName s
    if name = [] then .error ("missing filename in r/R/w/W commands", rest)
    else .ok (f name, d, rest)
  let label (f : Text → Action) : Read (Action × Draft × Text) :=
    let (label, rest) := readLabel s
    .ok (f label, d, rest)
  let code (silent : Bool) : Read (Action × Draft × Text) :=
    let s := s.dropWhile isBlankChar
    let digits := s.takeWhile Char.isDigit
    .ok (.quit silent ((natural? digits).getD 0), d, s.drop digits.length)
  match c with
  | 'a' => added .append
  | 'i' => added .insert
  | 'c' => added .change
  | 'r' => name .readFile
  | 'w' => name .writeFile
  | 'b' => label .branch
  | 't' => label (.branchIf true)
  | 'T' => label (.branchIf false)
  | 'q' => code false
  | 'Q' => code true
  | 's' =>
    match s with
    | [] => .error ("unterminated \x60s' command", [])
    | mark :: rest =>
      match upTo mark true rest with
      | none => .error ("unterminated \x60s' command", [])
      | some (pattern, rest) =>
        match upTo mark false rest with
        | none => .error ("unterminated \x60s' command", [])
        | some (replacement, rest) => do
          let (r, d) ← regexOf extended d pattern rest
          let (f, rest) ← readFlags rest.length ⟨0, false, false, false, none⟩ rest
          return (.substitute r f.fold (readReplacement replacement) f.nth f.global f.print f.file,
            d, rest)
  | 'y' =>
    match s with
    | [] => .error ("unterminated \x60y' command", [])
    | mark :: rest =>
      match upTo mark false rest with
      | none => .error ("unterminated \x60y' command", [])
      | some (old, rest) =>
        match upTo mark false rest with
        | none => .error ("unterminated \x60y' command", [])
        | some (new, rest) =>
          let (old, new) := (unescapeSet old, unescapeSet new)
          if old.length ≠ new.length then
            .error ("strings for \x60y' command are different lengths", rest)
          else .ok (.exchange (old.zip new), d, rest)
  | _ =>
    if letters.contains c then .ok (.letter c, d, s)
    else .error ("unknown command: \x60" ++ str [c] ++ "'", s)

/-- Passes over what must stand between two instructions. -/
def readEnd (s : Text) : Read Text :=
  match s.dropWhile isBlankChar with
  | [] => .ok []
  | '\n' :: rest | ';' :: rest => .ok rest
  | c :: rest =>
    if c = '\x7d' ∨ c = '#' then .ok (c :: rest)
    else .error ("extra characters after command", rest)

def readScope (extended : Bool) (d : Draft) (s : Text) : Read (Scope × Draft × Text) := do
  let (a, d, s) ← readAddress extended d s
  match a, s.dropWhile isBlankChar with
  | none, _ => return (.all, d, s)
  | some a, ',' :: rest =>
    let (b, d, rest) ← readAddress extended d (rest.dropWhile isBlankChar)
    match b with
    | some b => return (.range a b, d, rest)
    | none => throw ("unexpected \x60,'", rest)
  | some a, _ => return (.one a, d, s)

/-- Reads instructions; `fuel` bounds their number. -/
def readInstructions (extended : Bool) : (fuel : Nat) → Draft → Text → Read Draft
  | 0, d, _ => .ok d
  | fuel + 1, d, s =>
    match s.dropWhile fun c => Shell.Arithmetic.isSpace c || c = ';' with
    | [] => .ok d
    | '#' :: rest => readInstructions extended fuel d (rest.dropWhile (· ≠ '\n'))
    | '\x7d' :: rest =>
      match d.begin with
      | [] => .error ("unexpected \x60\x7d'", rest)
      | start :: others => do
        let close (i : Instruction) : Instruction :=
          { i with action := .block d.instructions.size }
        let d := { d with instructions := d.instructions.modify start close, begin := others }
        readInstructions extended fuel d (← readEnd rest)
    | s => do
      let (scope, d, s) ← readScope extended d s
      let s := s.dropWhile isBlankChar
      let negated : Bool := s.head? = some '!'
      let s := if negated then s.dropWhile fun c => c = '!' || isBlankChar c else s
      match s with
      | [] => throw ("missing command", [])
      | '\x7b' :: rest =>
        let d := { d with
          begin := d.instructions.size :: d.begin
          instructions := d.instructions.push ⟨scope, negated, .block 0⟩ }
        readInstructions extended fuel d rest
      | ':' :: rest =>
        let (label, rest) := readLabel rest
        let d := { d with labels := (label, d.instructions.size) :: d.labels }
        readInstructions extended fuel d rest
      | c :: rest =>
        let (action, d, rest) ← readAction extended d c rest
        let d := { d with instructions := d.instructions.push ⟨scope, negated, action⟩ }
        readInstructions extended fuel d (← readEnd rest)

/-- The labels that a program branches to. -/
def branches (instructions : Array Instruction) : List Text :=
  instructions.toList.filterMap fun i => match i.action with
    | .branch label | .branchIf _ label => if label = [] then none else some label
    | _ => none

def read (extended : Bool) (s : Text) : Except String Program :=
  let place (rest : Text) : String :=
    "-e expression #1, char " ++ toString (s.length - rest.length) ++ ": "
  match readInstructions extended (s.length + 1) ⟨#[], [], [], none⟩ s with
  | .error (e, rest) => .error (place rest ++ e)
  | .ok d =>
    if d.begin ≠ [] then .error (place s ++ "unmatched \x60\x7b'")
    else match (branches d.instructions).find? fun l => (d.labels.lookup l).isNone with
      | some label => .error ("can't find label for jump to \x60" ++ str label ++ "'")
      | none => .ok ⟨d.instructions, d.labels⟩

end Edit

end Tool

end Conformance
