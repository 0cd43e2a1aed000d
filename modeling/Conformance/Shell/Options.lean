import Conformance.Shell.Arithmetic
import Conformance.Shell.State

set_option autoImplicit false

/-! # Options

How options in front of the operands of a command are read: those of the commands of the shell, and
those of the shell itself, which a script can change later.
-/

namespace Conformance

namespace Shell

structure OptionLetters where
  flags : String
  valued : String

namespace OptionLetters

/-- An option with its value, if it has one. -/
abbrev Given := Char × Option Text

def letters (o : OptionLetters) : Text → List Text → Except String (List Given × List Text)
  | [], rest => .ok ([], rest)
  | c :: more, rest =>
    if o.flags.contains c then do
      let (others, rest) ← letters o more rest
      return ((c, none) :: others, rest)
    else if o.valued.contains c then
      match more, rest with
      | [], [] => .error ("No arg for -" ++ String.ofList [c] ++ " option")
      | [], value :: rest => .ok ([(c, some value)], rest)
      | _, _ => .ok ([(c, some more)], rest)
    else .error ("Illegal option -" ++ String.ofList [c])

/-- Reads the options in front of the operands; `count` bounds the arguments. -/
def read (o : OptionLetters) : (count : Nat) → List Text → Except String (List Given × List Text)
  | 0, args => .ok ([], args)
  | _, [] => .ok ([], [])
  | count + 1, arg :: rest =>
    match arg with
    | ['-', '-'] => .ok ([], rest)
    | '-' :: c :: more => do
      let (given, rest) ← o.letters (c :: more) rest
      let (others, rest) ← read o count rest
      return (given ++ others, rest)
    | _ => .ok ([], arg :: rest)

/-- Reads the options in front of the operands. -/
def parse (o : OptionLetters) (args : List Text) : Except String (List Given × List Text) :=
  o.read (args.length + 1) args

end OptionLetters

def shellOptions : List (String × Option Char) :=
  [("errexit", some 'e'), ("noglob", some 'f'), ("ignoreeof", some 'I'), ("interactive", some 'i'),
   ("monitor", some 'm'), ("noexec", some 'n'), ("stdin", some 's'), ("xtrace", some 'x'),
   ("verbose", some 'v'), ("vi", some 'V'), ("emacs", some 'E'), ("noclobber", some 'C'),
   ("allexport", some 'a'), ("notify", some 'b'), ("nounset", some 'u'), ("nolog", none),
   ("debug", none)]

/-- What the options in front of the operands of the shell ask for. -/
structure Switches where
  /-- The letters of the options that are set. -/
  options : List Char
  takesScript : Bool
  /-- Whether the options are to be shown, and whether as commands. -/
  shown : Option Bool
  /-- Whether the operands replace the arguments even if there are none. -/
  replaces : Bool

namespace Switches

def turn (s : Switches) (on : Bool) (c : Char) : Switches :=
  let others := s.options.filter (· ≠ c)
  { s with options := if on then c :: others else others }

def turnNamed (s : Switches) (on : Bool) (name : Text) : Except String Switches :=
  match shellOptions.lookup (String.ofList name) with
  | some (some c) => .ok (s.turn on c)
  | some none => .ok s
  | none => .error ("Illegal option -o " ++ String.ofList name)

/-- Reads the letters of an argument. `starting` says that the shell is being started. -/
def letters (starting on : Bool) :
    Switches → Text → List Text → Except String (Switches × List Text)
  | s, [], rest => .ok (s, rest)
  | s, c :: more, rest =>
    if c = 'c' ∧ starting then letters starting on { s with takesScript := true } more rest
    else if c = 'l' ∧ starting then letters starting on s more rest
    else if c = 'o' then
      match rest with
      | [] => letters starting on { s with shown := some (!on) } more []
      | name :: rest => do letters starting on (← s.turnNamed on name) more rest
    else if shellOptions.any (·.2 = some c) then letters starting on (s.turn on c) more rest
    else .error ("Illegal option " ++ String.ofList ['-', c])

/-- Reads the options in front of the operands; `count` bounds the arguments. -/
def read (starting : Bool) : (count : Nat) → Switches → List Text →
    Except String (Switches × List Text)
  | 0, s, args => .ok (s, args)
  | _, s, [] => .ok (s, [])
  | count + 1, s, arg :: rest =>
    match arg with
    | ['-'] => .ok (if starting then s else (s.turn false 'x').turn false 'v', rest)
    | ['-', '-'] => .ok ({ s with replaces := true }, rest)
    | '-' :: more => do
      let (s, rest) ← letters starting true s more rest
      read starting count s rest
    | '+' :: more => do
      let (s, rest) ← letters starting false s more rest
      read starting count s rest
    | _ => .ok (s, arg :: rest)

/-- Reads options, where some are set already. -/
def parse (starting : Bool) (options : List Char) (args : List Text) :
    Except String (Switches × List Text) :=
  read starting (args.length + 1) ⟨options, false, none, false⟩ args

/-- The options as they are shown. -/
def listing (options : List Char) (asCommands : Bool) : Text :=
  let isOn (letter : Option Char) : Bool := letter.any options.contains
  let line := fun ((name, letter) : String × Option Char) =>
    if asCommands then "set " ++ (if isOn letter then "-o " else "+o ") ++ name ++ "\n"
    else name ++ String.ofList (List.replicate (16 - name.length) ' ')
      ++ (if isOn letter then "on\n" else "off\n")
  (String.join ((if asCommands then [] else ["Current option settings\n"])
    ++ shellOptions.map line)).toList

end Switches

end Shell

end Conformance
