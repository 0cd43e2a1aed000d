import Conformance.Shell.Fields
import Conformance.Shell.Options

set_option autoImplicit false

/-! # Commands that change the shell

The commands of the shell that need nothing but its state: those that set variables, arguments,
options and aliases. What such a command does is an `Effect`.
-/

namespace Conformance

namespace Shell

/-- What a command of the shell does: the state that it leaves, what it writes, and its status. -/
structure Effect where
  state : State
  stdout : Text := []
  /-- What is diagnosed without being a fault. -/
  complaints : List String := []
  /-- What is written to standard error as it is. -/
  stderr : Text := []
  status : Nat := 0
  /-- The fault that ends the command. -/
  fault : Option String := none

namespace Effect

def ofStatus (s : State) (status : Nat) : Effect := { state := s, status := status }

def fail (s : State) (message : String) : Effect :=
  { state := s, status := 2, fault := some message }

def print (s : State) (text : Text) : Effect := { state := s, stdout := text }

/-- A command that may fail to make its state. -/
def ofState (s : State) (result : Except String State) : Effect :=
  match result with
  | .ok s => .ofStatus s 0
  | .error message => fail s message

def badNumber (arg : Text) : String := "Illegal number: " ++ String.ofList arg

/-- The largest number that a command of the shell takes. -/
def largestNumber : Nat := Nat.pow 2 31 - 1

/-- The number that an argument denotes. -/
def number (arg : Text) : Except String Nat :=
  match Arithmetic.number? arg with
  | some n => if 0 ≤ n ∧ n ≤ largestNumber then .ok n.toNat else .error (badNumber arg)
  | none => .error (badNumber arg)

/-- A command with options, which goes on with them. -/
def withOptions (o : OptionLetters) (s : State) (args : List Text)
    (goOn : List OptionLetters.Given → List Text → Effect) : Effect :=
  match o.parse args with
  | .ok (given, rest) => goOn given rest
  | .error message => fail s message

/-! ## Quoting -/

/-- A text in quotes, so that the shell reads it as it is; `fuel` bounds the pieces. -/
def quotedPieces : (fuel : Nat) → Text → Text
  | 0, _ => []
  | fuel + 1, s =>
    let plain := s.takeWhile (· ≠ '\'')
    let marks := (s.drop plain.length).takeWhile (· = '\'')
    let rest := s.drop (plain.length + marks.length)
    '\'' :: plain ++ ['\''] ++ (if marks = [] then [] else '"' :: marks ++ ['"'])
      ++ (if rest = [] then [] else quotedPieces fuel rest)

/-- A text in quotes, so that the shell reads it as it is. -/
def quoted (s : Text) : Text := quotedPieces (s.length + 1) s

/-- The variables as they are shown, sorted by name; `front` stands in front of each. -/
def listing (front : String) (chosen : Variable → Bool) (s : State) : Text :=
  let sorted := (s.vars.filter fun (_, v) => chosen v).mergeSort fun a b => a.1 ≤ b.1
  sorted.flatMap fun (name, v) =>
    front.toList ++ name.toList ++ (match v.value with
      | some value => '=' :: quoted value
      | none => []) ++ ['\n']

/-! ## Variables -/

/-- The name and the value of an argument such as `name=value`. -/
def assignment (arg : Text) : String × Option Text :=
  let name := arg.takeWhile (· ≠ '=')
  (String.ofList name, match arg.drop name.length with
    | _ :: value => some value
    | [] => none)

def badName (name : String) : String := name ++ ": bad variable name"

def markAll (mark : Variable → Variable) : State → List Text → Except String State
  | s, [] => .ok s
  | s, arg :: rest => do
    let (name, value) := assignment arg
    if ¬ Token.isName name.toList then throw (badName name)
    let s ← match value with
      | some value => s.setVar name value
      | none => .ok s
    let old := (s.lookup? name).getD ⟨none, false, false⟩
    markAll mark (s.putVariable name (some (mark old))) rest

def marking (name : String) (s : State) (args : List Text) : Effect :=
  let mark (v : Variable) : Variable :=
    if name = "export" then { v with exported := true } else { v with readOnly := true }
  let isMarked (v : Variable) : Bool := if name = "export" then v.exported else v.readOnly
  withOptions ⟨"p", ""⟩ s args fun given rest =>
    if rest = [] ∨ given ≠ [] then print s (listing (name ++ " ") isMarked s)
    else ofState s (markAll mark s rest)

/-- Remembers how a variable of a function was outside of it, once. -/
def remember (s : State) (name : String) : State :=
  match s.locals with
  | some saved =>
    if saved.any (·.1 = name) then s
    else { s with locals := some ((name, s.lookup? name) :: saved) }
  | none => s

/-- Gives a function variables of its own. They keep their values if no others are given. -/
def localise : State → List Text → Except String State
  | s, [] => .ok s
  | s, arg :: rest => do
    let (name, value) := assignment arg
    if ¬ Token.isName name.toList then throw (badName name)
    let s := remember s name
    let s ← match value with
      | some value => s.setVar name value
      | none => .ok s
    localise s rest

def localCommand (s : State) (args : List Text) : Effect :=
  if s.locals.isNone then fail s "not in a function" else ofState s (localise s args)

def unsetAll : State → List Text → Except String State
  | s, [] => .ok s
  | s, arg :: rest => do
    let name := String.ofList arg
    if ¬ Token.isName arg then throw (badName name)
    if (s.lookup? name).any (·.readOnly) then throw (State.readOnlyFailure name)
    unsetAll (s.putVariable name none) rest

def unset (s : State) (args : List Text) : Effect :=
  withOptions ⟨"vf", ""⟩ s args fun given rest =>
    if given.getLast?.map (·.1) = some 'f' then
      let names := rest.map String.ofList
      .ofStatus { s with functions := s.functions.filter (!names.contains ·.1) } 0
    else ofState s (unsetAll s rest)

/-! ## Arguments and options -/

def set (s : State) (args : List Text) : Effect :=
  if args = [] then print s (listing "" (·.value.isSome) s)
  else match Switches.parse false s.options args with
    | .error message => fail s message
    | .ok (switches, rest) =>
      let s := { s with
        options := switches.options
        args := if rest ≠ [] ∨ switches.replaces then rest else s.args
        optionPlace := if rest ≠ [] ∨ switches.replaces then .first else s.optionPlace }
      match switches.shown with
      | some asCommands => print s (Switches.listing s.options asCommands)
      | none => .ofStatus s 0

def shift (s : State) (args : List Text) : Effect :=
  match (args.head?.map number).getD (.ok 1) with
  | .error message => fail s message
  | .ok n =>
    if s.args.length < n then fail s "can't shift that many"
    else .ofStatus { s with args := s.args.drop n, optionPlace := .first } 0

/-- The option that is found at a place: its letter and the text behind it, or none at the end, and
the place of the next one. -/
def nextOption (args : List Text) (place : OptionPlace) : Option (Char × Text) × OptionPlace :=
  let current : Text := if place.offset = 0 then [] else (args[place.argument - 2]?).getD []
  match current.drop place.offset with
  | c :: rest => (some (c, rest), ⟨place.argument, place.offset + 1⟩)
  | [] =>
    match args[place.argument - 1]? with
    | some ('-' :: c :: rest) =>
      if c = '-' ∧ rest = [] then (none, ⟨place.argument + 1, 0⟩)
      else (some (c, rest), ⟨place.argument + 1, 2⟩)
    | _ => (none, ⟨place.argument, 0⟩)

/-- Whether an option is among those that are known, and whether it has a value. -/
def known? (options : Text) (c : Char) : Option Bool :=
  match options with
  | [] => none
  | [a] => if a = c then some false else none
  | a :: b :: rest =>
    if a = c then some (b = ':')
    else known? (if b = ':' then rest else b :: rest) c
  termination_by options.length
  decreasing_by all_goals (split <;> simp only [List.length_cons] <;> omega)

/-- Leaves what an option gives in variables. -/
def leaveOption (s : State) (name : String) (letter : Char) (value : Option Text)
    (place : OptionPlace) : Except String State := do
  let s ← match value with
    | some value => s.setVar "OPTARG" value
    | none => .ok (s.putVariable "OPTARG" none)
  let s ← s.setVar "OPTIND" (State.number place.argument)
  let s ← s.setVar name [letter]
  return { s with optionPlace := place }

def getopts (s : State) (args : List Text) : Effect :=
  match args with
  | options :: name :: others =>
    let given := if others = [] then s.args else others
    let start := if given.length + 1 < s.optionPlace.argument then .first else s.optionPlace
    let silent : Bool := options.head? = some ':'
    let name := String.ofList name
    let letters := if silent then options.drop 1 else options
    let leave (letter : Char) (value : Option Text) (place : OptionPlace) (stderr : String) :
        Effect :=
      { ofState s (leaveOption s name letter value place) with stderr := stderr.toList }
    match nextOption given start with
    | (none, place) =>
      match leaveOption s name '?' (s.value? "OPTARG") place with
      | .ok s => .ofStatus s 1
      | .error message => fail s message
    | (some (c, rest), place) =>
      let text := String.ofList [c]
      match known? letters c, rest with
      | none, _ =>
        if silent then leave '?' (some [c]) place ""
        else leave '?' none place ("Illegal option -" ++ text ++ "\n")
      | some false, _ => leave c (some []) place ""
      | some true, _ :: _ => leave c (some rest) ⟨place.argument, 0⟩ ""
      | some true, [] =>
        match given[place.argument - 1]? with
        | some value => leave c (some value) ⟨place.argument + 1, 0⟩ ""
        | none =>
          if silent then leave ':' (some [c]) ⟨place.argument, 0⟩ ""
          else leave '?' none ⟨place.argument, 0⟩ ("No arg for -" ++ text ++ " option\n")
  | _ => fail s "Usage: getopts optstring var [arg...]"

/-! ## Aliases -/

def aliasLine (a : String × Text) : Text := a.1.toList ++ '=' :: quoted a.2 ++ ['\n']

def aliasCommand (s : State) (args : List Text) : Effect :=
  if args = [] then print s (s.aliases.flatMap aliasLine)
  else args.foldl (fun e arg =>
    match assignment arg with
    | (name, some value) =>
      let others := e.state.aliases.filter (·.1 ≠ name)
      { e with state := { e.state with aliases := others ++ [(name, value)] } }
    | (name, none) =>
      match e.state.aliases.lookup name with
      | some value => { e with stdout := e.stdout ++ aliasLine (name, value) }
      | none =>
        { e with status := 1, stderr := e.stderr ++ ("alias: " ++ name ++ " not found\n").toList })
    (ofStatus s 0)

def unaliasCommand (s : State) (args : List Text) : Effect :=
  withOptions ⟨"a", ""⟩ s args fun given rest =>
    if given ≠ [] then .ofStatus { s with aliases := [] } 0
    else rest.foldl (fun e arg =>
      let name := String.ofList arg
      if e.state.aliases.any (·.1 = name) then
        { e with state := { e.state with aliases := e.state.aliases.filter (·.1 ≠ name) } }
      else
        { e with
          status := 1, stderr := e.stderr ++ ("unalias: " ++ name ++ " not found\n").toList })
      (ofStatus s 0)

/-! ## Permissions of new files -/

/-- The permissions that a mask leaves, in letters. -/
def maskLetters (mask : Nat) : Text :=
  let group (name : Char) (shift : Nat) : Text :=
    let bits := 7 - (mask >>> shift) % 8
    name :: '=' :: (if bits &&& 4 ≠ 0 then ['r'] else []) ++ (if bits &&& 2 ≠ 0 then ['w'] else [])
      ++ (if bits &&& 1 ≠ 0 then ['x'] else [])
  group 'u' 6 ++ [','] ++ group 'g' 3 ++ [','] ++ group 'o' 0

/-- Runs `umask` for a mask in digits. -/
def umask (s : State) (args : List Text) : Effect :=
  withOptions ⟨"S", ""⟩ s args fun given rest =>
    match rest with
    | [] =>
      let digits := Nat.toDigits 8 s.umask
      print s ((if given ≠ [] then maskLetters s.umask
        else List.replicate (4 - digits.length) '0' ++ digits) ++ ['\n'])
    | mask :: _ =>
      if mask.all fun c => '0' ≤ c && c ≤ '7' then
        .ofStatus { s with umask := Arithmetic.ofDigits 8 mask % 512 } 0
      else fail s ("Illegal mode: " ++ String.ofList mask)

/-! ## Reading a line -/

/-- A character of a line, with whether it was escaped. -/
abbrev LineChar := Char × Bool

def separates (separators : Text) (c : LineChar) : Bool := !c.2 && separators.contains c.1

/-- Whether a character of a line is a blank that separates fields. -/
def isBlank (separators : Text) (c : LineChar) : Bool :=
  separates separators c && Fields.defaultSeparators.contains c.1

/-- The last field of a line: all that is left, without the blanks at its end; a single separator is
left out, too, if only one field is left. -/
def lastField (separators : Text) (line : List LineChar) : Text :=
  let field := line.takeWhile (!separates separators ·)
  let rest := line.drop field.length
  let single : Bool := rest.all (separates separators) &&
    (rest.filter (!isBlank separators ·)).length ≤ 1
  (if single then field else (line.reverse.dropWhile (isBlank separators)).reverse).map (·.1)

/-- The fields of a line for several variables; the last one gets what is left. -/
def lineFields (separators : Text) : (count : Nat) → List LineChar → List Text
  | 0, _ => []
  | 1, line => [lastField separators (line.dropWhile (isBlank separators))]
  | count + 1, line =>
    let line := line.dropWhile (isBlank separators)
    let field := line.takeWhile (!separates separators ·)
    let rest := (line.drop field.length).dropWhile (isBlank separators)
    let rest := match rest with
      | c :: more => if separates separators c then more else rest
      | [] => []
    field.map (·.1) :: lineFields separators count rest

def assignLine (s : State) (names : List String) (line : List LineChar) : Except String State :=
  (names.zip (lineFields s.separators names.length line)).foldlM
    (fun s (name, value) =>
      if Token.isName name.toList then s.setVar name value else .error (badName name)) s

end Effect

end Shell

end Conformance
