import Conformance.Shell.Arithmetic
import Conformance.Shell.Decimal

set_option autoImplicit false

/-! # What the printing commands print

`echo` joins its arguments by spaces and ends with a newline; `printf` follows a format, which is
used again as long as there are arguments left. Both know escape sequences. What is wrong with an
argument of `printf` is said without stopping it; what is wrong with the format stops it.
-/

namespace Conformance

namespace Shell

namespace Printing

/-! ## Escape sequences -/

def octal? (c : Char) : Option Nat :=
  if '0' ≤ c ∧ c ≤ '7' then some (c.toNat - 48) else none

/-- Up to `count` octal digits: their value and what follows them. -/
def readOctal : (count : Nat) → Nat → Text → Nat × Text
  | 0, n, s => (n, s)
  | _ + 1, n, [] => (n, [])
  | count + 1, n, c :: rest =>
    match octal? c with
    | some d => readOctal count (8 * n + d) rest
    | none => (n, c :: rest)

def byteChar (n : Nat) : Char := Char.ofNat (n % 256)

/-- The character that a letter behind a backslash stands for. -/
def letterEscape? (c : Char) : Option Char :=
  match c with
  | 'a' => some '\x07'
  | 'b' => some '\x08'
  | 'f' => some '\x0c'
  | 'n' => some '\n'
  | 'r' => some '\r'
  | 't' => some '\t'
  | 'v' => some '\x0b'
  | '\\' => some '\\'
  | _ => none

/-- What follows a backslash: the text it stands for, and the rest. -/
def readEscape : Text → Text × Text
  | [] => (['\\'], [])
  | c :: rest =>
    match letterEscape? c with
    | some d => ([d], rest)
    | none =>
      match octal? c with
      | some d =>
        let (n, rest) := readOctal 2 d rest
        ([byteChar n], rest)
      | none => (['\\'], c :: rest)

/-- A text with its escape sequences replaced, and whether it ends the output early, as `\c` does.
`fuel` bounds the number of steps; the length of the text is enough. -/
def unescape : (fuel : Nat) → Text → Text × Bool
  | 0, _ => ([], false)
  | _ + 1, [] => ([], false)
  | fuel + 1, c :: rest =>
    if c = '\\' then
      match rest with
      | 'c' :: _ => ([], true)
      | '0' :: rest =>
        let (n, rest) := readOctal 3 0 rest
        let (more, stops) := unescape fuel rest
        (byteChar n :: more, stops)
      | rest =>
        let (s, rest) := readEscape rest
        let (more, stops) := unescape fuel rest
        (s ++ more, stops)
    else
      let (more, stops) := unescape fuel rest
      (c :: more, stops)

def echo (args : List Text) : Text :=
  let (newline, args) := match args with
    | ['-', 'n'] :: rest => (false, rest)
    | _ => (true, args)
  let line := (args.intersperse [' ']).flatten
  let (s, stops) := unescape (line.length + 1) line
  if newline && !stops then s ++ ['\n'] else s

/-! ## Directives -/

/-- A width or a precision. -/
inductive Measure where
  | number (n : Nat)
  /-- It is an argument. -/
  | star
  deriving DecidableEq, Repr

/-- A directive of a format. -/
structure Directive where
  flags : Text
  width : Measure
  precision : Option Measure
  kind : Char

/-- The number in front of a text, or a star, and what follows it. -/
def readMeasure (s : Text) : Measure × Text :=
  match s with
  | '*' :: rest => (.star, rest)
  | s =>
    let digits := s.takeWhile Char.isDigit
    (.number (Arithmetic.ofDigits 10 digits), s.drop digits.length)

/-- Reads what follows a percent sign. None if the text ends before. -/
def readDirective (s : Text) : Option (Directive × Text) :=
  let flags := s.takeWhile "#-+ 0".toList.contains
  let (width, rest) := readMeasure (s.drop flags.length)
  let (precision, rest) := match rest with
    | '.' :: rest =>
      let (m, rest) := readMeasure rest
      (some m, rest)
    | _ => (none, rest)
  match rest with
  | kind :: rest => some (⟨flags, width, precision, kind⟩, rest)
  | [] => none

/-- How a text is laid out. -/
structure Layout where
  flags : Text
  width : Nat
  precision : Option Nat

def Layout.has (l : Layout) (flag : Char) : Bool := l.flags.contains flag

/-- A text filled up with spaces to the width. -/
def Layout.pad (l : Layout) (s : Text) : Text :=
  let missing := List.replicate (l.width - s.length) ' '
  if l.has '-' then s ++ missing else missing ++ s

/-- A number filled up to the width; a sign or base mark stays in front of zeros. -/
def Layout.padNumber (l : Layout) (zeros : Bool) (front digits : Text) : Text :=
  if zeros ∧ l.has '0' ∧ ¬ l.has '-' then
    front ++ List.replicate (l.width - front.length - digits.length) '0' ++ digits
  else l.pad (front ++ digits)

def Layout.sign (l : Layout) (negative : Bool) : Text :=
  if negative then ['-'] else if l.has '+' then ['+'] else if l.has ' ' then [' '] else []

/-- The digits of a whole number in a base, as many as the precision asks for. -/
def Layout.digits (l : Layout) (base n : Nat) : Text :=
  let s := if n = 0 ∧ l.precision = some 0 then [] else Nat.toDigits base n
  List.replicate (l.precision.getD 0 - s.length) '0' ++ s

/-- A whole number in base ten. -/
def Layout.whole (l : Layout) (n : Int) : Text :=
  l.padNumber l.precision.isNone (l.sign (n < 0)) (l.digits 10 n.natAbs)

/-- A natural number in a base. -/
def Layout.natural (l : Layout) (kind : Char) (n : Nat) : Text :=
  let plain := l.padNumber l.precision.isNone
  match kind with
  | 'o' =>
    let s := l.digits 8 n
    plain [] (if l.has '#' ∧ s.head? ≠ some '0' then '0' :: s else s)
  | 'x' => plain (if l.has '#' ∧ n ≠ 0 then ['0', 'x'] else []) (l.digits 16 n)
  | 'X' =>
    plain (if l.has '#' ∧ n ≠ 0 then ['0', 'X'] else []) ((l.digits 16 n).map Char.toUpper)
  | _ => plain [] (l.digits 10 n)

/-- A number with a point. -/
def Layout.decimal (l : Layout) (kind : Char) (n : Binary64) : Text :=
  let upper := kind.isUpper
  let word (s : String) : Text := (if upper then s.toUpper else s).toList
  match n with
  | .nan => l.pad (word "nan")
  | .infinite negative => l.pad (l.sign negative ++ word "inf")
  | .finite negative significand exponent =>
    let (num, den) := Binary64.scaled significand 1 (-exponent)
    let places := l.precision.getD 6
    let letter := if upper then 'E' else 'e'
    let digits := match kind.toLower with
      | 'f' => Decimal.fixed places (l.has '#') num den
      | 'e' => Decimal.scientific letter places (l.has '#') num den
      | _ => Decimal.general letter places (l.has '#') num den
    l.padNumber true (l.sign negative) digits

/-! ## Arguments -/

/-- The number at the start of an argument, and what is wrong with the argument. `least` and
`greatest` bound the numbers that are possible. -/
def numberOf (signed : Bool) (arg : Text) : Int × Option String :=
  match arg with
  | '\'' :: rest | '"' :: rest => ((rest.head?.map fun c => (c.toNat : Int)).getD 0, none)
  | _ =>
    let (negative, rest) := Arithmetic.readSign (arg.dropWhile Arithmetic.isSpace)
    let (n, after) := Arithmetic.readNatural rest
    let n := Arithmetic.signed negative n
    let name := String.ofList arg
    let least : Int := if signed then -Int.pow 2 63 else -(Int.pow 2 64 - 1)
    let greatest : Int := if signed then Int.pow 2 63 - 1 else Int.pow 2 64 - 1
    if arg = [] then (0, none)
    else if ¬ rest.head?.any Char.isDigit then (0, some (name ++ ": expected numeric value"))
    else if after ≠ [] then (n, some (name ++ ": not completely converted"))
    else if n < least then
      (if signed then least else greatest, some (name ++ ": Numerical result out of range"))
    else if greatest < n then (greatest, some (name ++ ": Numerical result out of range"))
    else (n, none)

/-- The number with a point at the start of an argument, and what is wrong with the argument. -/
def decimalOf (arg : Text) : Binary64 × Option String :=
  let zero : Binary64 := .finite false 0 0
  match arg with
  | [] => (zero, none)
  | '\'' :: rest | '"' :: rest => (.nearest false ((rest.head?.map Char.toNat).getD 0) 1, none)
  | _ =>
    let name := String.ofList arg
    let trimmed := arg.dropWhile Arithmetic.isSpace
    let counts := (List.range (trimmed.length + 1)).reverse
    let found := counts.findSome? fun n =>
      (Numeral.parse? (String.ofList (trimmed.take n))).map fun numeral => (numeral, n)
    match found with
    | none => (zero, some (name ++ ": expected numeric value"))
    | some (numeral, n) =>
      (Binary64.ofNumeral numeral,
        if n = trimmed.length then none else some (name ++ ": not completely converted"))

/-! ## Formats -/

/-- What has been printed, and what is said about the arguments. -/
structure Printed where
  text : Text
  complaints : List String
  /-- The fault that has stopped the printing. -/
  fault : Option String
  /-- Whether the printing has been stopped by a text. -/
  stopped : Bool

namespace Printed

def nothing : Printed := ⟨[], [], none, false⟩

def add (p : Printed) (s : Text) : Printed := { p with text := p.text ++ s }

def complain (p : Printed) (complaint : Option String) : Printed :=
  { p with complaints := p.complaints ++ complaint.toList }

/-- Whether nothing more can follow. -/
def isOver (p : Printed) : Bool := p.stopped || p.fault.isSome

end Printed

/-- The next argument, and the others; an argument that is missing is empty. -/
def takeArg (args : List Text) : Text × List Text := (args.head?.getD [], args.tail)

/-- The value of a measure, which may take an argument. -/
def measure (p : Printed) (m : Measure) (args : List Text) : Int × Printed × List Text :=
  match m with
  | .number n => (n, p, args)
  | .star =>
    let (arg, args) := takeArg args
    let (n, complaint) := numberOf true arg
    (n, p.complain complaint, args)

def Directive.print (d : Directive) (p : Printed) (args : List Text) : Printed × List Text :=
  let (width, p, args) := measure p d.width args
  let (precision, p, args) : Option Int × Printed × List Text := match d.precision with
    | none => (none, p, args)
    | some m =>
      let (n, p, args) := measure p m args
      (some n, p, args)
  let l : Layout :=
    ⟨if width < 0 then '-' :: d.flags else d.flags, width.natAbs,
      (precision.filter (0 ≤ ·)).map Int.toNat⟩
  let cut (s : Text) : Text := match l.precision with
    | some n => s.take n
    | none => s
  let (arg, rest) := takeArg args
  match d.kind with
  | 's' => (p.add (l.pad (cut arg)), rest)
  | 'c' => (p.add (l.pad [arg.head?.getD '\x00']), rest)
  | 'b' =>
    let (s, stops) := unescape (arg.length + 1) arg
    ({ p.add (l.pad (cut s)) with stopped := stops }, rest)
  | 'd' | 'i' =>
    let (n, complaint) := numberOf true arg
    ((p.complain complaint).add (l.whole n), rest)
  | 'o' | 'u' | 'x' | 'X' =>
    let (n, complaint) := numberOf false arg
    ((p.complain complaint).add (l.natural d.kind (n % Int.pow 2 64).toNat), rest)
  | 'e' | 'E' | 'f' | 'F' | 'g' | 'G' =>
    let (n, complaint) := decimalOf arg
    ((p.complain complaint).add (l.decimal d.kind n), rest)
  | _ => (p, args)

def kinds : List Char := "scbdiouxXeEfFgG".toList

/-- One pass through a format. `fuel` bounds the number of steps; the length of the format is
enough. -/
def pass : (fuel : Nat) → Text → Printed → List Text → Printed × List Text
  | 0, _, p, args => (p, args)
  | _ + 1, [], p, args => (p, args)
  | fuel + 1, c :: rest, p, args =>
    if c = '\\' then
      let (s, rest) := readEscape rest
      pass fuel rest (p.add s) args
    else if c = '%' then
      match rest with
      | '%' :: rest => pass fuel rest (p.add ['%']) args
      | rest =>
        match readDirective rest with
        | none => ({ p with fault := some "missing format character" }, args)
        | some (d, after) =>
          if kinds.contains d.kind then
            let (p, args) := d.print p args
            if p.isOver then (p, args) else pass fuel after p args
          else
            let name := String.ofList ('%' :: rest.take (rest.length - after.length))
            ({ p with fault := some (name ++ ": invalid directive") }, args)
    else pass fuel rest (p.add [c]) args

/-- Goes through a format until the arguments are used up; `count` bounds the number of passes. -/
def passes : (count : Nat) → Text → Printed → List Text → Printed
  | 0, _, p, _ => p
  | count + 1, format, p, args =>
    let (p, rest) := pass (format.length + 1) format p args
    if rest = [] ∨ rest.length = args.length ∨ p.isOver then p else passes count format p rest

/-- What `printf` prints. -/
def printf (format : Text) (args : List Text) : Printed :=
  passes (args.length + 1) format .nothing args

end Printing

end Shell

end Conformance
