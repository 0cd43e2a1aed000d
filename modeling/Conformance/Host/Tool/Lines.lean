import Conformance.Host.Tool.Sort

set_option autoImplicit false

/-! # Tools for lines

The tools that look at files line by line: they count, compare, number and join lines, and cut
fields out of them.
-/

namespace Conformance

namespace Tool

open Shell (Text)

/-! ## Counting -/

/-- The number of words of a text. Only a character that can be seen makes a word. -/
def countWords (text : Text) : Nat :=
  let (n, inWord) := text.foldl (fun (n, inWord) c =>
    if Shell.Arithmetic.isSpace c then (if inWord then n + 1 else n, false)
    else (n, inWord || (0x20 < c.toNat && c.toNat < 0x7F))) (0, false)
  if inWord then n + 1 else n

/-- The width of the widest line of a text, where a tab leads to the next multiple of eight. -/
def widestLine (text : Text) : Nat :=
  let width (line : Text) : Nat := line.foldl (fun n c =>
    if c = '\t' then (n / 8 + 1) * 8
    else if 0x20 ≤ c.toNat ∧ c.toNat < 0x7F then n + 1 else n) 0
  ((lines text).map width).foldl max 0

/-- What is counted of a text, in the order in which it is shown. -/
def countsOf (letters : List Char) (text : Text) : List Nat :=
  let one (letter : Char) (n : Text → Nat) : List Nat :=
    if letters.contains letter then [n text] else []
  one 'l' (·.count '\n') ++ one 'w' countWords ++ one 'm' List.length ++ one 'c' List.length
    ++ one 'L' widestLine

/-- A row of counts with the name they belong to. -/
def countRow (width : Nat) (counts : List Nat) (name : Text) : Text :=
  ((counts.map (column width)).intersperse [' ']).flatten
    ++ (if name = [] then [] else ' ' :: name) ++ ['\n']

/-- The width of the columns of counts. -/
def countWidth (letters : List Char) (readings : List Contents) : Nat :=
  let there := readings.filter fun r =>
    match r.content with
    | .ok _ | .error .isDirectory => true
    | .error _ => false
  if readings.length = 1 ∧ letters.length = 1 then 1
  else if there.length = 0 then 1
  else
    let size := ((there.filter (·.regular)).map fun r => ((textOf? r).getD []).length).foldl (· + ·) 0
    max (toString size).length (if there.all (·.regular) then 1 else 7)

/-- The columns of a table of counts added up. -/
def addCounts (rows : List (List Nat)) : List Nat :=
  rows.foldl (fun sums row => if sums = [] then row else sums.zipWith (· + ·) row) []

def wc (args : List Text) : Plan :=
  Options.parse ⟨"lwcmL", "", [("lines", 'l'), ("words", 'w'), ("bytes", 'c'), ("chars", 'm'),
    ("max-line-length", 'L')]⟩ "wc" 1 args fun p =>
    let letters := if p.flags = [] then ['l', 'w', 'c'] else p.flags.eraseDups
    gather p.files fun readings =>
      let width := countWidth letters readings
      let rows := readings.filterMap fun r =>
        let name := if p.operands = [] then [] else Shell.State.ofBytes r.name
        match r.content with
        | .ok _ => some (countsOf letters ((textOf? r).getD []), name)
        | .error .isDirectory => some (countsOf letters [], name)
        | .error _ => none
      let zero := countsOf letters []
      let total := addCounts (zero :: rows.map (·.1))
      let stdout := rows.flatMap (fun (counts, name) => countRow width counts name)
        ++ (if 1 < readings.length then countRow width total "total".toList else [])
      let stderr := failures readings (plainFailure "wc")
      .ofTexts stdout stderr (if stderr = [] then 0 else 1)

/-! ## Repeated lines -/

/-- Runs of lines that count as equal: the first line of each, and the others. -/
def runsOf (same : Text → Text → Bool) : List Text → List (Text × List Text)
  | [] => []
  | line :: rest =>
    match runsOf same rest with
    | (first, others) :: runs =>
      if same line first then (line, first :: others) :: runs
      else (line, []) :: (first, others) :: runs
    | [] => [(line, [])]

/-- What `uniq` compares of a line. -/
def uniqKey (p : Parsed) (line : Text) : Text :=
  let number (c : Char) : Option Nat := (p.value? c).bind natural?
  let s := (dropFields none ((number 'f').getD 0) line).drop ((number 's').getD 0)
  let s := match number 'w' with
    | some n => s.take n
    | none => s
  if p.has 'i' then s.map Char.toUpper else s

def uniqLines (p : Parsed) (all : List Text) : List Text :=
  let runs := runsOf (fun a b => uniqKey p a = uniqKey p b) all
  if p.has 'D' then runs.flatMap fun (line, others) => if others = [] then [] else line :: others
  else
    let chosen := runs.filter fun (_, others) =>
      (!p.has 'd' || others ≠ []) && (!p.has 'u' || others = [])
    chosen.map fun (line, others) =>
      if p.has 'c' then column 7 (others.length + 1) ++ ' ' :: line else line

def uniq (args : List Text) : Plan :=
  Options.parse ⟨"cduiDz", "fsw", [("count", 'c'), ("repeated", 'd'), ("unique", 'u'),
    ("ignore-case", 'i')]⟩ "uniq" 1 args fun p =>
    match p.operands with
    | _ :: _ :: extra :: _ =>
      .complain ("uniq: extra operand '" ++ str extra ++ "'" ++ hint "uniq") 1
    | operands =>
      gather [bytes (operands.head?.getD ['-'])] fun readings =>
        match failures readings (plainFailure "uniq") with
        | [] =>
          let text := unlines (uniqLines p (lines (texts readings).flatten))
          match operands with
          | [_, file] => ⟨[], [], 0, [⟨bytes file, fun _ => bytes text,
              plainFailure "uniq" (str file)⟩], []⟩
          | _ => .ofTexts text [] 0
        | stderr => .ofTexts [] stderr 1

/-! ## Fields -/

/-- A list of ranges of positions, the last position of a range being open. -/
def readRanges (s : Text) : Option (List (Nat × Option Nat)) :=
  (splitAt ',' s).mapM fun item =>
    match splitAt '-' item with
    | [n] => (natural? n).map fun n => (n, some n)
    | [a, b] =>
      match natural? a, natural? b, a, b with
      | some a, some b, _, _ => if a ≤ b then some (a, some b) else none
      | some a, none, _, [] => some (a, none)
      | none, some b, [], _ => some (1, some b)
      | _, _, _, _ => none
    | _ => none

def inRanges (ranges : List (Nat × Option Nat)) (n : Nat) : Bool :=
  ranges.any fun (a, b) => a ≤ n && b.all (n ≤ ·)

/-- The elements at chosen positions, which are counted from one. -/
def choose {α : Type} (chosen : Nat → Bool) (xs : List α) : List α :=
  (xs.zipIdx.filter fun (_, i) => chosen (i + 1)).map (·.1)

/-- What `cut` leaves of a line; none if the line is dropped. -/
def cutLine (p : Parsed) (kind : Char) (chosen : Nat → Bool) (line : Text) : Option Text :=
  if kind = 'f' then
    let mark := ((p.value? 'd').bind List.head?).getD '\t'
    if line.contains mark then
      let between := (p.value? 'O').getD [mark]
      some (((choose chosen (splitAt mark line)).intersperse between).flatten)
    else if p.has 's' then none else some line
  else some (choose chosen line)

def cut (args : List Text) : Plan :=
  Options.parse ⟨"snzK", "bcfdO", [("bytes", 'b'), ("characters", 'c'), ("fields", 'f'),
    ("delimiter", 'd'), ("output-delimiter", 'O'), ("only-delimited", 's'), ("complement", 'K')]⟩
    "cut" 1 args fun p =>
    match p.values.filter fun (c, _) => c ≠ 'd' && c ≠ 'O' with
    | [] =>
      .complain ("cut: you must specify a list of bytes, characters, or fields" ++ hint "cut") 1
    | [(kind, list)] =>
      match readRanges list with
      | none => .complain ("cut: invalid field value '" ++ str list ++ "'" ++ hint "cut") 1
      | some ranges =>
        if ranges.any (·.1 = 0) then
          .complain ((if kind = 'f' then "cut: fields are numbered from 1"
            else "cut: byte/character positions are numbered from 1") ++ hint "cut") 1
        else if ((p.value? 'd').getD ['x']).length ≠ 1 then
          .complain ("cut: the delimiter must be a single character" ++ hint "cut") 1
        else
          let chosen (n : Nat) : Bool := inRanges ranges n ≠ p.has 'K'
          transform "cut" p.files fun text =>
            unlines ((lines text).filterMap (cutLine p kind chosen))
    | _ => .complain ("cut: only one list may be specified" ++ hint "cut") 1

/-- The rows of columns, up to the longest; `count` is their number. -/
def rowsOf : (count : Nat) → List (List Text) → List (List Text)
  | 0, _ => []
  | n + 1, columns => (columns.map fun c => c.head?.getD []) :: rowsOf n (columns.map List.tail)

/-- Joins texts with marks between them that are taken in turn. -/
def joinWith (marks : Text) (items : List Text) : Text :=
  (items.zipIdx.flatMap fun (item, i) =>
    (if i = 0 then [] else (marks[(i - 1) % max 1 marks.length]?).toList) ++ item)

def paste (args : List Text) : Plan :=
  Options.parse ⟨"sz", "d", [("delimiters", 'd'), ("serial", 's')]⟩ "paste" 1 args fun p =>
    let marks : Text := match p.value? 'd' with
      | some s => (Shell.Printing.unescape (s.length + 1) s).1
      | none => ['\t']
    gather p.files fun readings =>
      let stderr := failures readings (plainFailure "paste")
      let columns := (texts readings).map lines
      let rows := if p.has 's' then columns
        else rowsOf ((columns.map List.length).foldl max 0) columns
      .ofTexts (unlines (rows.map (joinWith marks))) stderr (if stderr = [] then 0 else 1)

/-! ## Other changes of lines -/

def tac (args : List Text) : Plan :=
  Options.parse ⟨"b", "s", []⟩ "tac" 1 args fun p =>
    gather p.files fun readings =>
      let stderr := failures readings fun name e =>
        "tac: failed to open '" ++ name ++ "' for reading: " ++ e.description
      .ofTexts ((texts readings).flatMap fun text => (endedLines text).reverse.flatten) stderr
        (if stderr = [] then 0 else 1)

def rev (args : List Text) : Plan :=
  Options.parse ⟨"", "", []⟩ "rev" 1 args fun p =>
    transform "rev" p.files fun text =>
      let all := unlines ((lines text).map List.reverse)
      if endsWithLine text then all else all.dropLast

def nl (args : List Text) : Plan :=
  Options.parse ⟨"p", "bwsvin", []⟩ "nl" 1 args fun p =>
    let number (c : Char) (n : Nat) : Nat := ((p.value? c).bind natural?).getD n
    let width := number 'w' 6
    let mark := (p.value? 's').getD ['\t']
    let all : Bool := p.value? 'b' = some ['a']
    transform "nl" p.files fun text =>
      let empty : Text := List.replicate (width + mark.length) ' '
      let numbered := numberLines (fun line => all || line ≠ []) (fun n => column width n ++ mark)
        (number 'v' 1) (lines text)
      unlines (numbered.map fun line => if line = [] then empty else line)

/-- A line in pieces of at most `width` characters; `count` bounds the pieces. -/
def foldLine (width : Nat) (atBlanks : Bool) : (count : Nat) → Text → List Text
  | 0, line => [line]
  | count + 1, line =>
    if line.length ≤ width then [line]
    else
      let piece := line.take width
      let kept := if atBlanks then dropTail (· ≠ ' ') piece else piece
      let piece := if kept = [] then piece else kept
      piece :: foldLine width atBlanks count (line.drop piece.length)

def fold (args : List Text) : Plan :=
  Options.parse ⟨"bs", "w", [("width", 'w'), ("spaces", 's'), ("bytes", 'b')]⟩ "fold" 1 args
    fun p =>
    let width := max 1 (((p.value? 'w').bind natural?).getD 80)
    transform "fold" p.files fun text =>
      let all := unlines ((lines text).flatMap fun line =>
        foldLine width (p.has 's') line.length line)
      if endsWithLine text then all else all.dropLast

/-- The lines of two sorted files in one order, with the column each belongs to: only the first
file, only the second, or both. -/
def mergeColumns : (count : Nat) → List Text → List Text → List (Nat × Text)
  | 0, _, _ => []
  | _, [], second => second.map (2, ·)
  | _, first, [] => first.map (1, ·)
  | count + 1, a :: first, b :: second =>
    match compareTexts a b with
    | .lt => (1, a) :: mergeColumns count first (b :: second)
    | .gt => (2, b) :: mergeColumns count (a :: first) second
    | .eq => (3, a) :: mergeColumns count first second

def comm (args : List Text) : Plan :=
  Options.parse ⟨"123", "", []⟩ "comm" 1 args fun p =>
    match p.operands with
    | [_, _] =>
      gather p.files fun readings =>
        match failures readings (plainFailure "comm"), texts readings with
        | [], [a, b] =>
          let shown (n : Nat) : Bool := !p.has (Nat.digitChar n)
          let tabs (n : Nat) : Text :=
            ((List.range n).filter fun i => i ≠ 0 && shown i).map fun _ => '\t'
          let merged := mergeColumns (a.length + b.length + 2) (lines a) (lines b)
          .ofTexts (unlines ((merged.filter (shown ·.1)).map fun (n, s) => tabs n ++ s)) [] 0
        | stderr, _ => .ofTexts [] stderr 1
    | [] => missingOperand "comm" 1
    | [a] => .complain ("comm: missing operand after '" ++ str a ++ "'" ++ hint "comm") 1
    | _ :: _ :: c :: _ => .complain ("comm: extra operand '" ++ str c ++ "'" ++ hint "comm") 1

end Tool

end Conformance
