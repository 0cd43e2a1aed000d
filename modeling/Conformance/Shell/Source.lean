import Conformance.Shell.Command

set_option autoImplicit false

/-! # Sources

A text that commands are read from, with the number of the line that is being read. The text may be
only the beginning of a longer one: a reader that comes to its end asks for more, and is started
again when there is more.

A reader either takes something from the front of a source, or stops: because it is starved of text,
or because of a fault in the text.
-/

namespace Conformance

namespace Shell

inductive Token where
  | word (w : Word)
  | operator (name : String)
  /-- A redirection operator, with the descriptor in front of it. -/
  | redirect (descriptor : Option Nat) (name : String)
  | lineEnd
  | sourceEnd

/-- A here-document that follows after the end of the line. -/
structure Awaited where
  number : Nat
  /-- The line that ends the document. -/
  mark : Text
  stripTabs : Bool
  /-- Whether nothing is expanded in the document. -/
  quoted : Bool

/-- An alias in use: its name, and how much text there is behind what it stands for. -/
abbrev AliasInUse := String × Nat

/-- A text that is being read. -/
structure Source where
  text : Text
  line : Nat
  /-- Whether nothing will follow the text. -/
  complete : Bool
  /-- At least the length of the text, to bound the number of steps of a reader. -/
  bound : Nat
  /-- A token that has been read but not been used. -/
  held : Option Token
  awaited : List Awaited
  documents : Documents
  /-- The words that stand for other texts at the start of a command. -/
  aliases : List (String × Text)
  expanding : List AliasInUse

namespace Source

/-- A source that starts with its first line. -/
def ofText (text : Text) (complete : Bool) (documents : Documents)
    (aliases : List (String × Text)) : Source :=
  { text := text, line := 1, complete := complete, bound := text.length, held := none,
    awaited := [], documents := documents, aliases := aliases, expanding := [] }

def append (s : Source) (more : Text) : Source :=
  { s with text := s.text ++ more, bound := s.bound + more.length }

end Source

/-- Why a reader stops. -/
inductive Halt where
  /-- There is not enough text. -/
  | starved
  /-- A fault in the text: the line and the wording. -/
  | fault (line : Nat) (message : String)
  deriving DecidableEq, Repr

/-- A reader of something. -/
abbrev Parse (α : Type) := StateT Source (Except Halt) α

namespace Parse

def fault {α : Type} (message : String) : Parse α := do
  throw (.fault (← get).line ("Syntax error: " ++ message))

/-- Stops if the text may go on. -/
def atEnd : Parse Unit := do
  if !(← get).complete then throw .starved

/-- The next character; none at the end. -/
def peek? : Parse (Option Char) := do
  match (← get).text with
  | c :: _ => return some c
  | [] => atEnd; return none

/-- The character after the next one. -/
def second? : Parse (Option Char) := do
  match (← get).text with
  | _ :: c :: _ => return some c
  | _ => atEnd; return none

def skip : Parse Unit :=
  modify fun s =>
    match s.text with
    | [] => s
    | c :: rest => { s with text := rest, line := if c = '\n' then s.line + 1 else s.line }

/-- Takes characters as long as they satisfy a condition, which no line end does. -/
def run (p : Char → Bool) : Parse Text := do
  let s ← get
  let taken := s.text.takeWhile p
  set { s with text := s.text.drop taken.length }
  return taken

/-- A text without the joints in front: pairs of a backslash and a line end; and their number. -/
def dropJoints : Text → Text × Nat
  | '\\' :: '\n' :: rest =>
    let (rest, n) := dropJoints rest
    (rest, n + 1)
  | text => (text, 0)

/-- The next character behind any joints, which are passed over. -/
def look? : Parse (Option Char) := do
  let s ← get
  let (text, n) := dropJoints s.text
  set { s with text := text, line := s.line + n }
  match text with
  | ['\\'] => atEnd
  | _ => pure ()
  peek?

/-- A text without the blanks and joints in front, and the number of the joints. -/
def dropBlanks : Text → Text × Nat
  | '\\' :: '\n' :: rest =>
    let (rest, n) := dropBlanks rest
    (rest, n + 1)
  | c :: rest => if c = ' ' ∨ c = '\t' then dropBlanks rest else (c :: rest, 0)
  | [] => ([], 0)

/-- Passes over blanks, joints and a comment. -/
def skipBlanks : Parse Unit := do
  modify fun s =>
    let (text, n) := dropBlanks s.text
    let text := if text.head? = some '#' then text.dropWhile (· ≠ '\n') else text
    { s with text := text, line := s.line + n }

end Parse

end Shell

end Conformance
