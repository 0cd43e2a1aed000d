import Conformance.Shell.Arithmetic
import Conformance.Shell.Fields
import Conformance.Shell.State

set_option autoImplicit false

/-! # Expansion

What words stand for in a state of the shell. An expansion may set variables. It may also need the
output of commands: it is then broken off, and started again from the beginning when the output is
known. As all it depends on is the state that it started from, the second attempt does what the
first did and goes on where that stopped.
-/

namespace Conformance

namespace Shell

/-- What an expansion has to know besides the state of the shell. -/
structure Surroundings where
  /-- The paths that match a pattern, in order. -/
  paths : Pattern → List Text
  home : Text → Option Text

/-- How far an expansion has come: the state, the answers that have not been used yet, and the
status of the last one that has. -/
structure Expanding where
  state : State
  answers : List Answer
  lastStatus : Option Nat

/-- Why an expansion is broken off. -/
inductive Pause where
  /-- The output of a command is needed, which is run in the given state. -/
  | needs (body : Command) (s : State)
  | fails (message : String)

abbrev Expand (α : Type) := StateT Expanding (Except Pause) α

namespace Expand

def fail {α : Type} (message : String) : Expand α := throw (.fails message)

def shell : Expand State := return (← get).state

def change (f : State → Except String State) : Expand Unit := do
  let e ← get
  match f e.state with
  | .ok s => set { e with state := s }
  | .error message => fail message

/-- The output of a command, without the line ends at its end. -/
def outputOf (body : Command) : Expand Text := do
  let e ← get
  match e.answers with
  | answer :: rest =>
    set { e with answers := rest, lastStatus := some answer.status }
    return answer.output
  | [] => throw (.needs body e.state)

/-- The variables, as arithmetic uses them. -/
def arithmeticAccess : Arithmetic.Access State where
  get s name := s.param? name
  set s name value := s.setVar name value

def arithmetic (source : Text) : Expand Text := do
  let e ← get
  match Arithmetic.eval arithmeticAccess source e.state with
  | .ok (n, s) =>
    set { e with state := s }
    return (toString n).toList
  | .error message => fail message

/-! ## Home directories -/

/-- The directory that a tilde with a user's name behind it stands for. -/
def homeOf (around : Surroundings) (s : State) (user : Text) : Option Text :=
  if user = [] then s.value? "HOME" else around.home user

/-- A text with the tilde at its start replaced, and what remains of it, if it starts with one that
stands for something. `more` says that the word goes on behind the text. -/
def tildeOf? (around : Surroundings) (s : State) (stops : Text) (more : Bool) (text : Text) :
    Option (Text × Text) :=
  match text with
  | '~' :: rest =>
    let user := rest.takeWhile (!stops.contains ·)
    let after := rest.drop user.length
    if after = [] ∧ more then none
    else (homeOf around s user).map fun home => (home, after)
  | _ => none

/-- A word with the tilde at its start replaced. -/
def withHome (around : Surroundings) (s : State) (stops : Text) (w : Word) : Word :=
  match w with
  | .text text false :: rest =>
    match tildeOf? around s stops (!rest.isEmpty) text with
    | some (home, after) => .text home true :: .text after false :: rest
    | none => w
  | _ => w

/-- A text at its colons: the pieces, of which all but the first start with one. -/
def atColons : Text → List Text
  | [] => [[]]
  | c :: rest =>
    match atColons rest with
    | [] => [[c]]
    | piece :: pieces => if c = ':' then [] :: (c :: piece) :: pieces else (c :: piece) :: pieces

/-- An unquoted text of an assigned value, where tildes are replaced behind colons too. `atStart`
says that the value starts with it. -/
def homesIn (around : Surroundings) (s : State) (atStart more : Bool) (text : Text) : Word :=
  let pieces := atColons text
  let last := pieces.length - 1
  (pieces.zipIdx).flatMap fun (piece, i) =>
    let (colon, piece) : Text × Text := match piece with
      | ':' :: rest => ([':'], rest)
      | rest => ([], rest)
    let allowed : Bool := colon ≠ [] || (atStart && i = 0)
    match (if allowed then tildeOf? around s ['/'] (more && i = last) piece else none) with
    | some (home, after) => [.text colon false, .text home true, .text after false]
    | none => [.text (colon ++ piece) false]

/-- An assigned value with its tildes replaced. -/
def withHomes (around : Surroundings) (s : State) (atStart : Bool) : Word → Word
  | [] => []
  | .text text false :: rest =>
    homesIn around s atStart (!rest.isEmpty) text ++ withHomes around s false rest
  | part :: rest => part :: withHomes around s false rest

/-! ## Parameters -/

/-- Several texts, each a field of its own. -/
def several (texts : List Text) : List Piece :=
  ((texts.map fun s => if s = [] then [Piece.presence] else Piece.ofText s .quoted).intersperse
    [.border]).flatten

/-- The arguments where they are neither quoted nor kept together: they are joined by the first
separator, which then separates them again. -/
def spread (s : State) : List Piece :=
  match s.separators with
  | [] => ((s.args.map (Piece.ofText · .expanded)).intersperse [.border]).flatten
  | c :: _ => ((s.args.map (Piece.ofText · .expanded)).intersperse [.char c .expanded]).flatten

/-- The pieces of a parameter; none if it is not set. `full` says that the word is split. -/
def paramPieces (s : State) (full : Bool) (name : String) (quoted : Bool) : Option (List Piece) :=
  let origin : Origin := if quoted then .quoted else .expanded
  if name = "@" ∨ name = "*" then
    some (if ¬ full then Piece.ofText s.allArgs origin
      else if ¬ quoted then spread s
      else if name = "@" then several s.args
      else Piece.ofText s.allArgs origin)
  else (s.param? name).map (Piece.ofText · origin)

def unsetFailure (name : String) : String := name ++ ": parameter not set"

/-- The pieces of a parameter that has to be set if the options ask for it. -/
def demanded (full : Bool) (name : String) (quoted : Bool) : Expand (List Piece) := do
  let s ← shell
  match paramPieces s full name quoted with
  | some pieces => return pieces
  | none => if s.has 'u' then fail (unsetFailure name) else return []

section

variable (around : Surroundings)

mutual

/-- The pieces of a part. `full` says that the word is split; `inner` says that the part belongs to
an expansion itself. -/
def part (full inner : Bool) : Part → Expand (List Piece)
  | .text s quoted =>
    let origin : Origin := if quoted then .quoted else if inner then .expanded else .plain
    return if s = [] then (if quoted then [.presence] else []) else Piece.ofText s origin
  | .param name m quoted => modified full name quoted m
  | .output body quoted => do
    return Piece.ofText (← outputOf body) (if quoted then .quoted else .expanded)
  | .arith body quoted => do
    let source ← parts false false body
    return Piece.ofText (← arithmetic (Piece.text source)) (if quoted then .quoted else .expanded)

def parts (full inner : Bool) : List Part → Expand (List Piece)
  | [] => return []
  | p :: rest => do
    let a ← part full inner p
    let b ← parts full inner rest
    return a ++ b

/-- The pieces of a word that belongs to an expansion. -/
def innerWord (full : Bool) : List Part → Expand (List Piece)
  | [] => return []
  | .text text quoted :: rest => do
    let s ← shell
    let home := if quoted then none else tildeOf? around s ['/'] (!rest.isEmpty) text
    let front : List Piece ← match home with
      | some (home, after) => pure (Piece.ofText home .quoted ++ Piece.ofText after .expanded)
      | none => part full true (.text text quoted)
    return front ++ (← parts full true rest)
  | p :: rest => do
    let a ← part full true p
    let b ← parts full true rest
    return a ++ b

/-- The pieces of a parameter with what its modifier does. -/
def modified (full : Bool) (name : String) (quoted : Bool) : Modifier → Expand (List Piece)
  | .none => demanded full name quoted
  | .length => do
    let pieces ← demanded false name quoted
    let count := (Piece.text pieces).length
    return Piece.ofText (State.number count) (if quoted then .quoted else .expanded)
  | .default orEmpty other => do
    match paramPieces (← shell) full name quoted with
    | some pieces =>
      if orEmpty ∧ Piece.text pieces = [] then innerWord full other else return pieces
    | none => innerWord full other
  | .alternative orEmpty other => do
    match paramPieces (← shell) full name quoted with
    | some pieces =>
      if orEmpty ∧ Piece.text pieces = [] then return [] else innerWord full other
    | none => return []
  | .assign orEmpty other => do
    let present : Bool := match paramPieces (← shell) full name quoted with
      | some pieces => !orEmpty || Piece.text pieces ≠ []
      | none => false
    if !present then
      let value := Piece.text (← innerWord false other)
      if Token.isName name.toList then change (·.setVar name value)
      else fail (name ++ ": bad variable name")
    demanded full name quoted
  | .require orEmpty message => do
    let present : Bool := match paramPieces (← shell) full name quoted with
      | some pieces => !orEmpty || Piece.text pieces ≠ []
      | none => false
    if present then demanded full name quoted
    else if message.isEmpty then
      fail (unsetFailure name ++ if orEmpty then " or null" else "")
    else
      let text := Piece.text (← innerWord false message)
      fail (name ++ ": " ++ String.ofList text)
  | .cut how pattern => do
    let pieces ← demanded false name quoted
    let pattern ← innerWord false pattern
    let text := Pattern.cut how (Piece.pattern pattern) (Piece.text pieces)
    return Piece.ofText text (if quoted then .quoted else .expanded)
  | .bad => fail "Bad substitution"

end

/-! ## Words -/

/-- The paths that a field stands for; itself if it is no pattern or matches none. -/
def pathsOf (s : State) (field : Pattern) : List Text :=
  let own := field.map (·.1)
  if s.has 'f' ∨ ¬ field.isGeneral then [own]
  else match around.paths field with
    | [] => [own]
    | paths => paths

/-- The fields that a word stands for. -/
def fields (w : Word) : Expand (List Text) := do
  let pieces ← parts around true false (withHome around (← shell) ['/'] w)
  let s ← shell
  return (Fields.split s.separators pieces).flatMap (pathsOf around s)

def allFields : List Word → Expand (List Text)
  | [] => return []
  | w :: rest => do
    let a ← fields around w
    let b ← allFields rest
    return a ++ b

/-- The fields behind a command that takes assignments as its arguments, whose values are not
split. -/
def declarations : List Word → Expand (List Text)
  | [] => return []
  | w :: rest => do
    let a ← match Parser.assignment? w with
      | some (name, value) => do
        let text := Piece.text (← parts around false false (withHomes around (← shell) true value))
        pure [name.toList ++ '=' :: text]
      | none => fields around w
    return a ++ (← declarations rest)

/-- The fields of a command, where `declares` tells which command words take assignments. -/
def commandFields (declares : Text → Bool) : List Word → Expand (List Text)
  | [] => return []
  | w :: rest => do
    let a ← fields around w
    match a with
    | [] => commandFields declares rest
    | name :: _ =>
      let others ←
        if name = "command".toList then commandFields declares rest
        else if declares name then declarations around rest
        else allFields around rest
      return a ++ others

/-- What a word stands for where it is not split. -/
def whole (w : Word) : Expand Text := do
  return Piece.text (← parts around false false (withHome around (← shell) ['/'] w))

def assigned (w : Word) : Expand Text := do
  return Piece.text (← parts around false false (withHomes around (← shell) true w))

def pattern (w : Word) : Expand Pattern := do
  return Piece.pattern (← parts around false false (withHome around (← shell) ['/'] w))

def document (number : Nat) : Expand Text := do
  return Piece.text (← parts around false false ((← shell).documents[number]?.getD []))

/-- The redirections with their targets expanded. -/
def redirects : List (Redirect Word) → Expand (List (Redirect Text))
  | [] => return []
  | r :: rest => do
    let target ← match r.kind with
      | .document number => document around number
      | _ => whole around r.target
    return ⟨r.descriptor, r.kind, target⟩ :: (← redirects rest)

/-- Whether one of some patterns matches a text. They are expanded one after the other, until one
does. -/
def anyMatch (subject : Text) : List Word → Expand Bool
  | [] => return false
  | w :: rest => do
    if (← pattern around w).accepts subject then return true else anyMatch subject rest

/-- The body of the first branch one of whose patterns matches a text. -/
def branchFor (subject : Text) : List (List Word × Command) → Expand (Option Command)
  | [] => return none
  | (patterns, body) :: rest => do
    if ← anyMatch around subject patterns then return some body else branchFor subject rest

/-- Makes assignments, one after the other, where `assign` makes one; gives the variables as they
were before. -/
def assignAll (assign : State → String → Text → Except String State) :
    List (String × Word) → Expand (List (String × Text))
  | [] => return []
  | (name, w) :: rest => do
    let value ← assigned around w
    change (assign · name value)
    return (name, value) :: (← assignAll assign rest)

end

/-- Starts an expansion. -/
def start {α : Type} (e : Expand α) (s : State) (answers : List Answer) :
    Except Pause (α × Expanding) :=
  StateT.run e ⟨s, answers, none⟩

end Expand

end Shell

end Conformance
