import Conformance.Host.Tool.Lines
import Conformance.Host.Tool.Regex

set_option autoImplicit false

/-! # Searching lines

The tool that finds the lines of files in which something matches. A line is found, or with the
opposite question not found, by any of several patterns. What is written about a file is made of its
lines alone; only the exit status looks at all files.
-/

namespace Conformance

namespace Tool

open Shell (Text)

/-- A search: what is sought, and how. -/
structure Search where
  patterns : List Regex
  fold : Bool
  words : Bool
  whole : Bool
  inverted : Bool

namespace Search

/-- Whether a match stands between characters that belong to no word. -/
def isWord (line : Text) (m : Regex.Found) : Bool :=
  let before := if m.start = 0 then none else (line.drop (m.start - 1)).head?
  !before.any Regex.isWordChar && !m.rest.head?.any Regex.isWordChar

/-- The matches of one pattern that count. -/
def matchesOf (s : Search) (line : Text) (r : Regex) : List Regex.Found :=
  let r := if s.whole then Regex.sequence .start (.sequence r .finish) else r
  (Regex.all s.fold r line).filter fun m => !s.words || isWord line m

/-- The matches of all patterns that do not overlap, in order; of two that start together the longer
one counts. -/
def allMatches (s : Search) (line : Text) : List Regex.Found :=
  let found := (s.patterns.flatMap (s.matchesOf line)).mergeSort fun a b =>
    a.start < b.start || (a.start = b.start && b.text.length ≤ a.text.length)
  (found.foldl (fun (kept, last) m =>
    if m.start < last then (kept, last) else (m :: kept, m.start + m.text.length))
    (([], 0) : List Regex.Found × Nat)).1.reverse

/-- Whether a line is found. -/
def finds (s : Search) (line : Text) : Bool :=
  (s.patterns.any fun r => !(s.matchesOf line r).isEmpty) ≠ s.inverted

end Search

/-! ## Showing what has been found -/

/-- What is written about the files that are searched. -/
structure Listing where
  search : Search
  options : Parsed
  /-- Whether the name of the file is written in front. -/
  named : Bool
  /-- The most lines that are found in a file. -/
  most : Option Nat
  before : Nat
  after : Nat

namespace Listing

/-- The numbers of the lines that are found, counted from one. -/
def foundLines (l : Listing) (all : List Text) : List Nat :=
  let found := (all.zipIdx.filter fun (line, _) => l.search.finds line).map (·.2 + 1)
  match l.most with
  | some n => found.take n
  | none => found

/-- A line as it is shown, behind its file and its number. -/
def row (l : Listing) (name : Text) (mark : Char) (number : Nat) (line : Text) : Text :=
  (if l.named then name ++ [mark] else [])
    ++ (if l.options.has 'n' then (toString number).toList ++ [mark] else []) ++ line ++ ['\n']

/-- The lines around those that are found, with a separator between lines that do not follow each
other. -/
def withContext (l : Listing) (name : Text) (all : List Text) (found : List Nat) : Text :=
  let near (n : Nat) : Bool := found.any fun m => m ≤ n + l.before && n ≤ m + l.after
  let shown := (all.zipIdx.map fun (line, i) => (line, i + 1)).filter fun (_, n) => near n
  let context : Bool := 0 < l.before || 0 < l.after
  (shown.foldl (fun (text, last) (line, n) =>
    let gap : Text := if context ∧ last ≠ 0 ∧ n ≠ last + 1 then ['-', '-', '\n'] else []
    let mark := if found.contains n then ':' else '-'
    (text ++ [gap ++ l.row name mark n line], n))
    (([], 0) : List Text × Nat)).1.flatten

/-- What is written about a file. -/
def about (l : Listing) (name text : Text) : Text :=
  let all := lines text
  let found := l.foundLines all
  let o := l.options
  if o.has 'q' then []
  else if o.has 'l' then if found = [] then [] else name ++ ['\n']
  else if o.has 'L' then if found = [] then name ++ ['\n'] else []
  else if o.has 'c' then
    (if l.named then name ++ [':'] else []) ++ (toString found.length).toList ++ ['\n']
  else if text.contains '\x00' ∧ ¬ o.has 'a' then
    if found = [] then [] else "grep: ".toList ++ name ++ ": binary file matches\n".toList
  else if o.has 'o' then
    if l.search.inverted then []
    else (all.zipIdx.filter fun (_, i) => found.contains (i + 1)).flatMap fun (line, i) =>
      ((l.search.allMatches line).filter (·.text ≠ [])).flatMap fun m =>
        l.row name ':' (i + 1) m.text
  else l.withContext name all found

end Listing

/-! ## Files -/

/-- The regular files below a path, sorted by name; `depth` bounds the nesting. -/
def filesBelow (tree : FileTree) (cwd : FileId) : (depth : Nat) → Bytes → List Bytes
  | 0, _ => []
  | depth + 1, path =>
    match tree.findFrom cwd path false with
    | .ok (_, .directory _ _ names) =>
      let front := if FileTree.endsInSlash path then path else path ++ [FileTree.slash]
      let sorted := (names.map (·.1)).mergeSort fun a b =>
        compareTexts (Shell.State.ofBytes a) (Shell.State.ofBytes b) ≠ .gt
      sorted.flatMap fun name => filesBelow tree cwd depth (front ++ name)
    | .ok (_, entry) => if entry.isRegular then [path] else []
    | .error _ => [path]

/-- The deepest nesting that is searched. -/
def searchDepth : Nat := 2048

def grepOptions : Options :=
  ⟨"EFGPivncqslLoxwhHrRaIzZ", "efmABC", [("extended-regexp", 'E'), ("fixed-strings", 'F'),
    ("basic-regexp", 'G'), ("ignore-case", 'i'), ("invert-match", 'v'), ("line-number", 'n'),
    ("count", 'c'), ("quiet", 'q'), ("silent", 'q'), ("no-messages", 's'),
    ("files-with-matches", 'l'), ("files-without-match", 'L'), ("only-matching", 'o'),
    ("line-regexp", 'x'), ("word-regexp", 'w'), ("no-filename", 'h'), ("with-filename", 'H'),
    ("recursive", 'r'), ("text", 'a'), ("regexp", 'e'), ("file", 'f'), ("max-count", 'm'),
    ("after-context", 'A'), ("before-context", 'B'), ("context", 'C')]⟩

/-- The patterns that options and operands give, and the operands that are left; none if there are
none. -/
def grepPatterns (scene : Scene) (p : Parsed) : Option (List Text × List Text) :=
  let listed := (p.valuesOf 'f').flatMap fun file =>
    match scene.tree.read scene.cwd (bytes file) with
    | .ok body => lines (Shell.State.ofBytes body)
    | .error _ => []
  let given := (p.valuesOf 'e').flatMap (splitAt '\n') ++ listed
  if p.values.any fun (c, _) => c = 'e' || c = 'f' then some (given, p.operands)
  else match p.operands with
    | pattern :: rest => some (splitAt '\n' pattern, rest)
    | [] => none

/-- Plans `grep`; `letters` are options that are given beforehand. -/
def grep (letters : List Char) (scene : Scene) (args : List Text) : Plan :=
  grepOptions.parse "grep" 2 args fun p =>
    let p := { p with flags := letters ++ p.flags }
    let has := p.has
    match grepPatterns scene p with
    | none => .complain ("Usage: grep [OPTION]... PATTERNS [FILE]..." ++ hint "grep") 2
    | some (patterns, operands) =>
      let number (c : Char) : Option Nat := (p.value? c).bind natural?
      let extended : Bool := has 'E' || has 'P'
      match patterns.mapM fun s =>
        if has 'F' then .ok (Regex.literal s) else Regex.parse extended s with
      | .error e => .complain ("grep: " ++ e) 2
      | .ok regexes =>
        let recursive : Bool := has 'r' || has 'R'
        let files := if recursive then
            (if operands = [] then [['.']] else operands).flatMap fun f =>
              filesBelow scene.tree scene.cwd searchDepth (bytes f)
          else ({ p with operands := operands } : Parsed).files
        let search : Search := ⟨regexes, has 'i', has 'w', has 'x', has 'v'⟩
        let around := (number 'C').getD 0
        let listing : Listing := ⟨search, p,
          (has 'H' || recursive || 1 < files.length) && !has 'h', number 'm',
          (number 'B').getD around, (number 'A').getD around⟩
        gather files fun readings =>
          let stdout := readings.flatMap fun r =>
            ((textOf? r).map (listing.about (shownName "(standard input)" r))).getD []
          let found : Bool := (texts readings).any fun text =>
            (listing.foundLines (lines text) ≠ []) ≠ has 'L'
          let failed : Bool := readings.any fun r => (textOf? r).isNone
          let stderr := if has 's' then [] else failures readings (plainFailure "grep")
          .ofTexts stdout stderr
            (if failed && !(found && has 'q') then 2 else if found then 0 else 1)

end Tool

end Conformance
