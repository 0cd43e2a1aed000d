import Conformance.Host.Tool.Invoke
import Conformance.Host.Tool.Regex
import Conformance.Shell.Condition

set_option autoImplicit false

/-! # Tools that make texts

The tools that need no files: they write their arguments, count, calculate, take paths apart, and
decide conditions.
-/

namespace Conformance

namespace Tool

open Shell (Text)

/-! ## Writing -/

/-- The letters of an argument that is only made of options of `echo`. -/
def echoFlags? (arg : Text) : Option Text :=
  match arg with
  | '-' :: c :: rest =>
    if (c :: rest).all fun c => c = 'n' || c = 'e' || c = 'E' then some (c :: rest) else none
  | _ => none

def echo (args : List Text) : Plan :=
  let options := args.takeWhile fun arg => (echoFlags? arg).isSome
  let letters := (options.filterMap echoFlags?).flatten
  let text := Shell.State.joined (args.drop options.length)
  let escapes : Bool := (letters.filter (· ≠ 'n')).getLast? = some 'e'
  let (text, stops) := if escapes then Shell.Printing.unescape (text.length + 1) text
    else (text, false)
  .print (if letters.contains 'n' ∨ stops then text else text ++ ['\n'])

def printf (args : List Text) : Plan :=
  match (match args with | ['-', '-'] :: rest => rest | _ => args) with
  | [] => missingOperand "printf" 1
  | format :: rest =>
    let printed := Shell.Printing.printf format rest
    let messages := printed.complaints ++ printed.fault.toList
    .finish printed.text (messages.flatMap fun m => ("printf: " ++ m ++ "\n").toList)
      (if messages = [] then 0 else 1)

/-! ## Counting -/

/-- A decimal: a coefficient and the number of its decimal places. -/
def decimal? (s : Text) : Option (Int × Nat) :=
  let (negative, rest) : Bool × Text := match s with
    | '-' :: rest => (true, rest)
    | '+' :: rest => (false, rest)
    | _ => (false, s)
  let whole := rest.takeWhile Char.isDigit
  let places : Option Text := match rest.drop whole.length with
    | [] => some []
    | '.' :: more => if more.all Char.isDigit then some more else none
    | _ => none
  places.bind fun places =>
    if whole ++ places = [] then none
    else some (Shell.Arithmetic.signed negative (Shell.Arithmetic.ofDigits 10 (whole ++ places)),
      places.length)

def decimalText (places : Nat) (n : Int) : Text :=
  let digits := (toString n.natAbs).toList
  let padded := List.replicate (places + 1 - digits.length) '0' ++ digits
  let whole := padded.take (padded.length - places)
  let sign : Text := if n < 0 then ['-'] else []
  sign ++ whole ++ (if places = 0 then [] else '.' :: padded.drop whole.length)

/-- The numbers from one to another, at a distance; `count` bounds how many there are. -/
def progression (distance last : Int) : (count : Nat) → Int → List Int
  | 0, _ => []
  | count + 1, n =>
    if (0 < distance ∧ last < n) ∨ (distance < 0 ∧ n < last) then []
    else n :: progression distance last count (n + distance)

/-- A number with zeros in front up to a width. -/
def zeroPadded (width : Nat) (s : Text) : Text :=
  match s with
  | '-' :: rest => '-' :: (List.replicate (width - s.length) '0' ++ rest)
  | _ => List.replicate (width - s.length) '0' ++ s

def seq (args : List Text) : Plan :=
  let isNumber (arg : Text) : Bool := (decimal? arg).isSome
  let options := args.takeWhile fun arg => !isNumber arg
  let front := if options.length < args.length then options else args
  Options.parse ⟨"w", "sf", [("equal-width", 'w'), ("separator", 's'), ("format", 'f')]⟩ "seq" 1
    front fun p =>
    let operands := p.operands ++ args.drop front.length
    match operands.find? fun a => !isNumber a with
    | some bad =>
      .complain ("seq: invalid floating point argument: '" ++ str bad ++ "'" ++ hint "seq") 1
    | none =>
      let run (first step last : Int × Nat) : Plan :=
        let common := max (max first.2 step.2) last.2
        let scaled (d : Int × Nat) : Int := d.1 * Int.pow 10 (common - d.2)
        let shown := max first.2 step.2
        if step.1 = 0 then
          .complain ("seq: invalid Zero increment value: '0'" ++ hint "seq") 1
        else
          let count := ((scaled last - scaled first) / scaled step + 1).toNat
          let numbers := progression (scaled step) (scaled last) count (scaled first)
          let texts := numbers.map fun n => decimalText shown (n / Int.pow 10 (common - shown))
          let width := (texts.map List.length).foldl max 0
          let texts := if p.has 'w' then texts.map (zeroPadded width) else texts
          let texts := match p.value? 'f' with
            | some f => texts.map fun s => (Shell.Printing.printf f [s]).text
            | none => texts
          if texts = [] then .finish [] [] 0
          else .print ((texts.intersperse ((p.value? 's').getD ['\n'])).flatten ++ ['\n'])
      match operands.filterMap decimal? with
      | [last] => run (1, 0) (1, 0) last
      | [first, last] => run first (1, 0) last
      | [first, step, last] => run first step last
      | [] => missingOperand "seq" 1
      | _ => .complain ("seq: extra operand '" ++ str (operands[3]?.getD []) ++ "'" ++ hint "seq") 1

/-! ## Calculating -/

namespace Expr

/-- The failure to evaluate an expression, and the status it leads to. -/
abbrev Result := Except (String × Nat) (Text × List Text)

def number (s : Text) : Except (String × Nat) Int :=
  let digits : Text := match s with
    | '-' :: rest => rest
    | _ => s
  match natural? digits with
  | some n => .ok (Shell.Arithmetic.signed (digits.length ≠ s.length) n)
  | none => .error ("non-integer argument", 2)

/-- Whether a text counts as false: it is empty or zero. -/
def isNull (s : Text) : Bool :=
  s = [] || (match number s with | .ok n => n = 0 | .error _ => false)

def ofBool (b : Bool) : Text := if b then ['1'] else ['0']

/-- Compares as numbers if both are numbers, and else as texts. -/
def compare (a b : Text) : Ordering :=
  match number a, number b with
  | .ok m, .ok n => Ord.compare m n
  | _, _ => compareTexts a b

/-- What a text matches of an expression that is anchored at its start. -/
def anchored (s pattern : Text) : Except (String × Nat) Text :=
  match Regex.parse false pattern with
  | .error e => .error (e, 2)
  | .ok r =>
    let hasGroup : Bool := match (pattern.zip pattern.tail).find? (· = ('\\', '(')) with
      | some _ => true
      | none => false
    match Regex.search false (.sequence .start r) s with
    | some m =>
      if hasGroup then .ok ((m.groups.lookup 1).getD [])
      else .ok (toString m.text.length).toList
    | none => .ok (if hasGroup then [] else ['0'])

/-- The value of two operands under an operator. -/
def apply (name : String) (a b : Text) : Except (String × Nat) Text :=
  let arithmetic (f : Int → Int → Int) : Except (String × Nat) Text := do
    return (toString (f (← number a) (← number b))).toList
  let divided (f : Int → Int → Int) : Except (String × Nat) Text := do
    if (← number b) = 0 then throw ("division by zero", 2)
    arithmetic f
  match name with
  | "|" => .ok (if isNull a then if isNull b then ['0'] else b else a)
  | "&" => .ok (if isNull a ∨ isNull b then ['0'] else a)
  | "<" => .ok (ofBool (compare a b = .lt))
  | "<=" => .ok (ofBool (compare a b ≠ .gt))
  | "=" | "==" => .ok (ofBool (compare a b = .eq))
  | "!=" => .ok (ofBool (compare a b ≠ .eq))
  | ">=" => .ok (ofBool (compare a b ≠ .lt))
  | ">" => .ok (ofBool (compare a b = .gt))
  | "+" => arithmetic (· + ·)
  | "-" => arithmetic (· - ·)
  | "*" => arithmetic (· * ·)
  | "/" => divided Int.tdiv
  | "%" => divided Int.tmod
  | _ => anchored a b

/-- How strongly an operator binds. -/
def strength? (s : Text) : Option Nat :=
  match str s with
  | "|" => some 0
  | "&" => some 1
  | "<" | "<=" | "=" | "==" | "!=" | ">=" | ">" => some 2
  | "+" | "-" => some 3
  | "*" | "/" | "%" => some 4
  | ":" => some 5
  | _ => none

/-- The failure of an operand that is not there. -/
def missing (before : Option Text) : String × Nat :=
  match before with
  | some s => ("syntax error: missing argument after '" ++ str s ++ "'", 2)
  | none => ("syntax error: missing argument", 2)

mutual

def operand (before : Option Text) : (fuel : Nat) → List Text → Result
  | 0, _ => .error ("expression too long", 2)
  | _, [] => .error (missing before)
  | fuel + 1, word :: rest =>
    match str word, rest with
    | "(", _ => do
      let (value, after) ← strong 0 (some word) fuel rest
      match after with
      | [')'] :: after => return (value, after)
      | bad :: _ => throw ("syntax error: expecting ')' instead of '" ++ str bad ++ "'", 2)
      | [] => throw ("syntax error: expecting ')' after '" ++ str value ++ "'", 2)
    | ")", _ => .error ("syntax error: unexpected ')'", 2)
    | "length", a :: rest => .ok ((toString a.length).toList, rest)
    | "match", a :: b :: rest => (anchored a b).map (·, rest)
    | "index", a :: b :: rest =>
      .ok ((toString (((a.zipIdx.find? fun (c, _) => b.contains c).map (·.2 + 1)).getD 0)).toList,
        rest)
    | "substr", a :: b :: c :: rest =>
      match natural? b, natural? c with
      | some b, some c => .ok (if b = 0 then [] else (a.drop (b - 1)).take c, rest)
      | _, _ => .ok ([], rest)
    | _, _ => .ok (word, rest)
  termination_by structural fuel => fuel

/-- Reads an expression whose operators bind at least so strongly. -/
def strong (least : Nat) (before : Option Text) : (fuel : Nat) → List Text → Result
  | 0, _ => .error ("expression too long", 2)
  | fuel + 1, words => do
    let (a, rest) ← operand before fuel words
    further least fuel a rest
  termination_by structural fuel => fuel

/-- Goes on with an expression behind its first operand. -/
def further (least : Nat) : (fuel : Nat) → Text → List Text → Result
  | 0, _, _ => .error ("expression too long", 2)
  | _, a, [] => .ok (a, [])
  | fuel + 1, a, o :: rest =>
    match strength? o with
    | none => .ok (a, o :: rest)
    | some n =>
      if n < least then .ok (a, o :: rest)
      else do
        let (b, rest) ← strong (n + 1) (some o) fuel rest
        further least fuel (← apply (str o) a b) rest
  termination_by structural fuel => fuel

end

def eval (words : List Text) : Except (String × Nat) Text := do
  match ← strong 0 none (4 * words.length + 8) words with
  | (value, []) => return value
  | (_, extra :: _) => throw ("syntax error: unexpected argument '" ++ str extra ++ "'", 2)

end Expr

def expr (args : List Text) : Plan :=
  let words := match args with
    | ['-', '-'] :: rest => rest
    | _ => args
  if words = [] then missingOperand "expr" 2
  else match Expr.eval words with
    | .ok value => .finish (value ++ ['\n']) [] (if Expr.isNull value then 1 else 0)
    | .error (message, code) => .complain ("expr: " ++ message) code

/-! ## Paths -/

/-- A path without the slashes at its end. -/
def trimSlashes (s : Text) : Text :=
  let trimmed := dropTail (· = '/') s
  if trimmed = [] ∧ s ≠ [] then ['/'] else trimmed

def baseName (ending : Text) (s : Text) : Text :=
  let trimmed := trimSlashes s
  let piece := if trimmed = ['/'] then trimmed
    else (trimmed.reverse.takeWhile (· ≠ '/')).reverse
  if ending ≠ [] ∧ ending ≠ piece ∧ ending.isSuffixOf piece then
    piece.take (piece.length - ending.length)
  else piece

def dirName (s : Text) : Text :=
  let trimmed := trimSlashes s
  let front := dropTail (· ≠ '/') trimmed
  if front = [] then ['.'] else trimSlashes front

def basename (args : List Text) : Plan :=
  Options.parseFront ⟨"az", "s", [("multiple", 'a'), ("suffix", 's'), ("zero", 'z')]⟩ "basename" 1
    args fun p =>
    let print (names : List Text) : Plan :=
      .print (names.flatMap (· ++ [if p.has 'z' then '\x00' else '\n']))
    match p.operands, p.value? 's' with
    | [], _ => missingOperand "basename" 1
    | names, some ending => print (names.map (baseName ending))
    | names, none =>
      if p.has 'a' then print (names.map (baseName []))
      else match names with
        | [name] => print [baseName [] name]
        | [name, ending] => print [baseName ending name]
        | _ => .complain ("basename: extra operand '" ++ str (names[2]?.getD []) ++ "'"
            ++ hint "basename") 1

def dirname (args : List Text) : Plan :=
  Options.parse ⟨"z", "", [("zero", 'z')]⟩ "dirname" 1 args fun p =>
    if p.operands = [] then missingOperand "dirname" 1
    else .print (p.operands.flatMap fun s => dirName s ++ [if p.has 'z' then '\x00' else '\n'])

/-! ## Conditions -/

/-- Answers the questions of conditions about files. -/
def about (tree : FileTree) (cwd : FileId) : Shell.Condition.Files := fun letter path =>
  let file := bytes path
  if letter = 'h' ∨ letter = 'L' then
    match tree.findFrom cwd file false with
    | .ok (_, .link _) => true
    | _ => false
  else match tree.find cwd file with
    | .error _ => false
    | .ok (id, entry) =>
      match letter with
      | 'f' => entry.isRegular
      | 'd' => entry.isDirectory
      | 's' => entry.isDirectory || tree.content id ≠ []
      | 'r' => entry.isReadable
      | 'w' => entry.isWritable
      | 'x' => entry.permits 0o100
      | 'c' => !(entry.isRegular || entry.isDirectory)
      | 'u' => entry.permits 0o4000
      | 'g' => entry.permits 0o2000
      | 'k' => entry.permits 0o1000
      | 'b' | 'p' | 'S' | 't' => false
      | _ => true

def test (scene : Scene) (name : String) (args : List Text) : Plan :=
  let decide (words : List Text) : Plan :=
    match Shell.Condition.decide (about scene.tree scene.cwd) words with
    | .ok value => .finish [] [] (if value then 0 else 1)
    | .error e => .complain (name ++ ": " ++ e) 2
  if name ≠ "[" then decide args
  else if args.getLast? = some [']'] then decide args.dropLast
  else .complain "[: missing ']'" 2

/-! ## Circumstances -/

def pwd (scene : Scene) : Plan :=
  .print (Shell.State.ofBytes (scene.tree.pathOf scene.cwd) ++ ['\n'])

/-- Plans `id` for the number and the name of the user. -/
def userId (args : List Text) : Plan :=
  Options.parse ⟨"ugnGr", "", [("user", 'u'), ("name", 'n'), ("group", 'g')]⟩ "id" 1 args fun p =>
    if p.flags = [] then .print "uid=0(root) gid=0(root) groups=0(root)\n".toList
    else if p.has 'n' then .print "root\n".toList
    else .print ['0', '\n']

def uname (args : List Text) : Plan :=
  Options.parse ⟨"asnrvmo", "", []⟩ "uname" 1 args fun p =>
    if p.has 'm' then .print "x86_64\n".toList
    else if p.has 'o' then .print "GNU/Linux\n".toList
    else .print "Linux\n".toList

end Tool

end Conformance
