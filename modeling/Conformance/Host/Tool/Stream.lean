import Conformance.Host.Tool.Plan
import Conformance.Shell.Pattern
import Conformance.Shell.Printing

set_option autoImplicit false

/-! # Tools for streams

The tools that hand on what they read, or a part of it: whole files, their beginnings and their
ends, with the characters exchanged, and to several files at a time.
-/

namespace Conformance

namespace Tool

open Shell (Text)

/-! ## Whole files -/

/-- A character as `cat -v` shows it. -/
def visible (tabs : Bool) (c : Char) : Text :=
  let low (n : Nat) : Text :=
    if n < 32 then ['^', Char.ofNat (n + 64)] else if n = 127 then ['^', '?'] else [Char.ofNat n]
  if c = '\n' then [c]
  else if c = '\t' then if tabs then ['^', 'I'] else [c]
  else if c.toNat < 128 then low c.toNat
  else 'M' :: '-' :: low (c.toNat - 128)

/-- Drops the lines that are as empty as the ones in front of them. -/
def squeezeLines : List Text → List Text
  | a :: b :: rest =>
    if a = [] ∧ b = [] then squeezeLines (b :: rest) else a :: squeezeLines (b :: rest)
  | lines => lines
  termination_by lines => lines.length

/-- Numbers lines from `n` on, those that satisfy `p`. -/
def numberLines (p : Text → Bool) (front : Nat → Text) : Nat → List Text → List Text
  | _, [] => []
  | n, line :: rest =>
    if p line then (front n ++ line) :: numberLines p front (n + 1) rest
    else line :: numberLines p front n rest

/-- A text as `cat` shows it. -/
def catText (p : Parsed) (text : Text) : Text :=
  let squeezed := if p.has 's' then squeezeLines (lines text) else lines text
  let shown := squeezed.map fun line =>
    let line := if p.has 'v' then line.flatMap (visible (p.has 'T'))
      else if p.has 'T' then line.flatMap fun c => if c = '\t' then ['^', 'I'] else [c]
      else line
    if p.has 'E' then line ++ ['$'] else line
  let front (n : Nat) : Text := column 6 n ++ ['\t']
  let bare := if p.has 'E' then ['$'] else []
  let numbered := if p.has 'b' then numberLines (· ≠ bare) front 1 shown
    else if p.has 'n' then numberLines (fun _ => true) front 1 shown
    else shown
  let all := unlines numbered
  if endsWithLine text then all
  else if p.has 'E' then all.dropLast.dropLast else all.dropLast

/-- What the letters of `cat` stand for that stand for several. -/
def catFlags (p : Parsed) : Parsed :=
  let add (c : Char) (others : List Char) (p : Parsed) : Parsed :=
    if p.has c then { p with flags := p.flags ++ others } else p
  add 'A' ['v', 'E', 'T'] (add 'e' ['v', 'E'] (add 't' ['v', 'T'] p))

def cat (args : List Text) : Plan :=
  Options.parse ⟨"bensuvtAET", "",
    [("number", 'n'), ("number-nonblank", 'b'), ("squeeze-blank", 's'), ("show-all", 'A'),
      ("show-ends", 'E'), ("show-tabs", 'T'), ("show-nonprinting", 'v')]⟩ "cat" 1 args fun p =>
    let p := catFlags p
    if p.flags.all (· = 'u') then .copy ⟨"cat", none, [], p.files, .all, none, none, 0⟩
    else transform "cat" p.files (catText p)

/-! ## Beginnings and ends -/

def factors : List (String × Nat) :=
  [("", 1), ("b", 512), ("kB", 1000), ("K", 1024), ("k", 1024), ("KiB", 1024), ("MB", 1000000),
   ("M", 1048576), ("m", 1048576), ("MiB", 1048576), ("G", 1073741824), ("GB", 1000000000)]

/-- The number that a count with a factor denotes. -/
def count? (s : Text) : Option Nat :=
  let digits := s.takeWhile Char.isDigit
  match natural? digits, factors.lookup (str (s.drop digits.length)) with
  | some n, some factor => some (n * factor)
  | _, _ => none

def modernised (args : List Text) : List Text :=
  match args with
  | ('-' :: c :: more) :: rest =>
    if c.isDigit then ['-', 'n'] :: (c :: more) :: rest else args
  | _ => args

/-- Which part of a file is shown. -/
structure Extent where
  /-- Whether lines are counted, and not bytes. -/
  ofLines : Bool
  /-- The sign in front of the count. -/
  sign : Option Char
  amount : Nat

def extentOf (program : String) (p : Parsed) : Except String Extent :=
  let (ofLines, text) : Bool × Text := match p.values.getLast? with
    | some ('c', v) => (false, v)
    | some (_, v) => (true, v)
    | none => (true, "10".toList)
  let (sign, digits) : Option Char × Text := match text with
    | '-' :: rest => (some '-', rest)
    | '+' :: rest => (some '+', rest)
    | _ => (none, text)
  match count? digits with
  | some n => .ok ⟨ofLines, sign, n⟩
  | none => .error (program ++ ": invalid number of " ++ (if ofLines then "lines" else "bytes")
      ++ ": '" ++ str text ++ "'")

/-- The lines of a text with their ends. -/
def endedLines (text : Text) : List Text :=
  let all := (lines text).map (· ++ ['\n'])
  if endsWithLine text then all else all.dropLast ++ (all.getLast?.map List.dropLast).toList

/-- What is left of a text when `keep` has chosen among its lines or characters. -/
def Extent.apply (e : Extent) (keep : {α : Type} → List α → List α) (text : Text) : Text :=
  if e.ofLines then (keep (endedLines text)).flatten else keep text

def lastOf {α : Type} (n : Nat) (xs : List α) : List α := xs.drop (xs.length - n)

/-- What `head` and `tail` say of a file that could not be read. -/
def partFailure (program name : String) (e : Errno) : String :=
  let shown := str (quotedText name.toList)
  if e = .isDirectory then program ++ ": error reading " ++ shown ++ ": " ++ e.description
  else program ++ ": cannot open " ++ shown ++ " for reading: " ++ e.description

/-- Files one after the other, each behind a line with its name. -/
def headed (readings : List Contents) (f : Text → Text) : Text :=
  let parts := readings.filterMap fun r =>
    (textOf? r).map fun text =>
      "==> ".toList ++ shownName "standard input" r ++ " <==\n".toList ++ f text
  (parts.intersperse ['\n']).flatten

def showParts (program : String) (p : Parsed) (f : Text → Text) : Plan :=
  let withNames := p.has 'v' || (1 < p.operands.length && !p.has 'q')
  gather p.files fun readings =>
    let stderr := failures readings (partFailure program)
    let stdout := if withNames then headed readings f else (texts readings).flatMap f
    .ofTexts stdout stderr (if stderr = [] then 0 else 1)

def partOptions : Options :=
  ⟨"qvfz", "nc",
    [("lines", 'n'), ("bytes", 'c'), ("quiet", 'q'), ("silent", 'q'), ("verbose", 'v')]⟩

/-- Plans `head`, which reads no more than it shows. -/
def head (args : List Text) : Plan :=
  partOptions.parse "head" 1 (modernised args) fun p =>
    match extentOf "head" p with
    | .error e => .complain e 1
    | .ok e =>
      if e.sign = some '-' then
        showParts "head" p (e.apply fun xs => xs.take (xs.length - e.amount))
      else
        let filter : Filter := if e.ofLines then .firstLines e.amount else .firstBytes e.amount
        let withNames := p.has 'v' || (1 < p.operands.length && !p.has 'q')
        let header : Option Text := if withNames then some [] else none
        .copy ⟨"head", none, [], p.files, filter, some filter, header, 0⟩

def tail (args : List Text) : Plan :=
  partOptions.parse "tail" 1 (modernised args) fun p =>
    match extentOf "tail" p with
    | .error e => .complain e 1
    | .ok e =>
      if e.sign = some '+' then showParts "tail" p (e.apply fun xs => xs.drop (e.amount - 1))
      else showParts "tail" p (e.apply fun xs => lastOf e.amount xs)

/-! ## Exchanging characters -/

/-- An element of a set of characters. -/
inductive SetItem where
  | chars (s : Text)
  /-- A character several times, or as often as is needed. -/
  | times (c : Char) (n : Option Nat)

/-- The character at the start of a set, and what follows it. -/
def readSetChar (s : Text) : Option (Char × Text) :=
  match s with
  | [] => none
  | ['\\'] => some ('\\', [])
  | '\\' :: c :: rest =>
    if (Shell.Printing.octal? c).isSome then
      let (n, rest) := Shell.Printing.readOctal 3 0 (c :: rest)
      some (Shell.Printing.byteChar n, rest)
    else some ((Shell.Printing.letterEscape? c).getD c, rest)
  | c :: rest => some (c, rest)

def allChars : Text := (List.range 256).map Char.ofNat

def charRange (a b : Char) : Text :=
  (List.range (b.toNat + 1 - a.toNat)).map fun i => Char.ofNat (a.toNat + i)

/-- A class or a repetition at the start of a set, and what follows it. -/
def bracketed? (s : Text) : Option (SetItem × Text) :=
  match s with
  | '[' :: ':' :: rest =>
    let name := rest.takeWhile Char.isAlpha
    match rest.drop name.length, Shell.Pattern.classOf? (str name) with
    | ':' :: ']' :: rest, some p => some (.chars (allChars.filter p), rest)
    | _, _ => none
  | '[' :: '=' :: c :: '=' :: ']' :: rest => some (.chars [c], rest)
  | '[' :: rest =>
    match readSetChar rest with
    | some (c, '*' :: rest) =>
      let digits := rest.takeWhile Char.isDigit
      match rest.drop digits.length with
      | ']' :: rest => some (.times c ((natural? digits).filter (· ≠ 0)), rest)
      | _ => none
    | _ => none
  | _ => none

/-- The elements of a set; `fuel` bounds their number. -/
def readSetItems : (fuel : Nat) → Text → Except String (List SetItem)
  | 0, _ | _, [] => .ok []
  | fuel + 1, s =>
    match bracketed? s with
    | some (item, rest) => (readSetItems fuel rest).map (item :: ·)
    | none =>
      match readSetChar s with
      | none => .ok []
      | some (a, '-' :: c :: rest) =>
        match readSetChar (c :: rest) with
        | some (b, rest) =>
          if b < a then
            .error ("range-endpoints of '" ++ str [a, '-', b]
              ++ "' are in reverse collating sequence order")
          else (readSetItems fuel rest).map (.chars (charRange a b) :: ·)
        | none => .ok [.chars [a]]
      | some (a, rest) => (readSetItems fuel rest).map (.chars [a] :: ·)

/-- The characters of a set that has to have a length. -/
def spellSet (wanted : Nat) (items : List SetItem) : Text :=
  let fixed := (items.map fun item => match item with
    | .chars s => s.length
    | .times _ n => n.getD 0).foldl (· + ·) 0
  items.flatMap fun item => match item with
    | .chars s => s
    | .times c n => List.replicate (n.getD (wanted - fixed)) c

/-- What each character of a set is exchanged for. -/
def exchange (old new : Text) : List (Char × Char) :=
  match new.getLast? with
  | none => []
  | some last => (old.zip (new ++ List.replicate (old.length - new.length) last)).reverse

/-- Drops the characters of a set that repeat the one in front. -/
def squeeze (set : Text) : Text → Text
  | a :: b :: rest =>
    if a = b ∧ set.contains a then squeeze set (b :: rest) else a :: squeeze set (b :: rest)
  | s => s
  termination_by s => s.length

/-- A plan that changes or drops each character by itself. -/
def eachChar (change : Char → Option Char) : Plan :=
  .copy ⟨"tr", none, [], [[0x2D]], .each fun b =>
    (change (Char.ofNat b.toNat)).map fun c => c.toNat.toUInt8, none, none, 0⟩

/-- Plans `tr` for its sets. -/
def translate (p : Parsed) (first : List SetItem) (second : Option (List SetItem)) : Plan :=
  let listed := spellSet 0 first
  let old := if p.has 'c' ∨ p.has 'C' then allChars.filter (!listed.contains ·) else listed
  let new := second.map (spellSet old.length)
  let old := if p.has 't' then old.take (new.map List.length |>.getD old.length) else old
  let reduce (f : Text → Text) : Plan := transform "tr" [[0x2D]] f
  match new with
  | none =>
    if p.has 'd' then eachChar fun c => if old.contains c then none else some c
    else reduce (squeeze old)
  | some new =>
    if p.has 'd' then reduce fun s => squeeze new (s.filter (!old.contains ·))
    else
      let table := exchange old new
      let change (c : Char) : Char := (table.lookup c).getD c
      if p.has 's' then reduce fun s => squeeze new (s.map change)
      else eachChar fun c => some (change c)

def tr (args : List Text) : Plan :=
  Options.parse ⟨"dscCt", "", [("delete", 'd'), ("squeeze-repeats", 's'), ("complement", 'c'),
    ("truncate-set1", 't')]⟩ "tr" 1 args fun p =>
    let extra (s : Text) (why : String) : Plan :=
      .complain ("tr: extra operand '" ++ str s ++ "'" ++ why ++ hint "tr") 1
    let missing (s : Text) (why : String) : Plan :=
      .complain ("tr: missing operand after '" ++ str s ++ "'\n" ++ why ++ hint "tr") 1
    let goOn (first : Text) (second : Option Text) : Plan :=
      match readSetItems first.length first,
        (second.map fun s => readSetItems s.length s).getD (.ok []) with
      | .ok a, .ok b => translate p a (second.map fun _ => b)
      | .error e, _ | _, .error e => .complain ("tr: " ++ e) 1
    match p.operands with
    | [] => missingOperand "tr" 1
    | [a] =>
      if p.has 'd' ∧ p.has 's' then
        missing a "Two strings must be given when both deleting and squeezing repeats."
      else if p.has 'd' ∨ p.has 's' then goOn a none
      else missing a "Two strings must be given when translating."
    | [a, b] =>
      if p.has 'd' ∧ ¬ p.has 's' then
        extra b "\nOnly one string may be given when deleting without squeezing repeats."
      else goOn a (some b)
    | _ :: _ :: c :: _ => extra c ""

/-! ## Copies -/

def tee (args : List Text) : Plan :=
  Options.parse ⟨"aip", "", [("append", 'a'), ("ignore-interrupts", 'i')]⟩ "tee" 1 args fun p =>
    .gather ⟨none, [[0x2D]], [], [], none, fun readings =>
      let text := (texts readings).flatten
      let body := bytes text
      ⟨text, [], 0, p.operands.map fun file =>
        ⟨bytes file, fun old => if p.has 'a' then old ++ body else body,
          plainFailure "tee" (str file)⟩, []⟩⟩

/-- Plans `dd`, which copies a number of blocks. -/
def dd (args : List Text) : Plan :=
  let value (name : String) : Option Text :=
    (args.reverse.find? fun arg => (name ++ "=").toList.isPrefixOf arg).map
      (·.drop (name.length + 1))
  let number (name : String) : Option Nat := (value name).bind count?
  let size := max 1 (((number "ibs").orElse fun _ => number "bs").getD 512)
  let skipped := size * (number "skip").getD 0
  let limit := (number "count").map fun n => skipped + size * n
  .gather ⟨none, [bytes ((value "if").getD ['-'])], [], [], limit.map fun n => (n ≤ ·.length),
    fun readings =>
      match failures readings fun name e =>
        "dd: failed to open '" ++ name ++ "': " ++ e.description with
      | [] =>
        let all := (texts readings).flatten
        let text := ((limit.map all.take).getD all).drop skipped
        let records := toString (text.length / size) ++ "+"
          ++ (if text.length % size = 0 then "0" else "1")
        let stats := records ++ " records in\n" ++ records ++ " records out\n"
        let quiet : Bool := value "status" = some "none".toList
        let stderr := if quiet then [] else stats.toList
        match value "of" with
        | none => .ofTexts text stderr 0
        | some file =>
          ⟨[], stderr, 0, [⟨bytes file, fun _ => bytes text, fun e =>
            "dd: failed to open '" ++ str file ++ "': " ++ e.description⟩], []⟩
      | stderr => .ofTexts [] stderr 1⟩

def yes (args : List Text) : Plan :=
  .repeating ((if args = [] then ['y'] else Shell.State.joined args) ++ ['\n'])

end Tool

end Conformance
