set_option autoImplicit false

/-! # Shell commands

The commands of a shell script and the words they are made of. The shell handles bytes: a character
here is always below U+0100 and stands for one byte.

A word is a list of parts that are joined when it is expanded. What a part stands for may depend on
the variables, on the outcome of other commands, or on nothing; whether it was quoted decides
whether the result is split into several fields.

A here-document is read after the line of the command that it belongs to. The command holds its
number; the texts are kept in a table beside the commands.
-/

namespace Conformance

namespace Shell

abbrev Text := List Char

/-- What a redirection does with a descriptor. -/
inductive RedirectKind where
  | input
  | output
  /-- As `output`, also where files are protected from being emptied. -/
  | clobber
  | append
  | inputOutput
  /-- Makes the descriptor a copy of another one, or closes it. -/
  | duplicate
  /-- Lets the descriptor read the here-document with the given number. -/
  | document (number : Nat)
  deriving DecidableEq, Repr

/-- A redirection of a descriptor to what a target names; a target is a word or a text. -/
structure Redirect (τ : Type) where
  descriptor : Nat
  kind : RedirectKind
  target : τ
  deriving Repr

/-- Which part of a value a pattern is cut from. -/
structure Cut where
  fromEnd : Bool
  longest : Bool
  deriving DecidableEq, Repr

mutual

/-- One part of a word. A quoted text without characters says that there is a field, even if it is
empty. -/
inductive Part where
  | text (s : Text) (quoted : Bool)
  | param (name : String) (modifier : Modifier) (quoted : Bool)
  /-- The output of a command. -/
  | output (body : Command) (quoted : Bool)
  /-- The value of an arithmetic expression. -/
  | arith (body : List Part) (quoted : Bool)

/-- What a parameter expansion does besides giving the value. -/
inductive Modifier where
  | none
  | length
  /-- Another text if the parameter is unset, or with `orEmpty` also if it is empty. -/
  | default (orEmpty : Bool) (other : List Part)
  /-- As `default`, and the other text is assigned. -/
  | assign (orEmpty : Bool) (other : List Part)
  /-- A failure with a message if the parameter is unset, or with `orEmpty` also if it is empty. -/
  | require (orEmpty : Bool) (message : List Part)
  /-- Another text if the parameter is set, and with `orEmpty` not empty. -/
  | alternative (orEmpty : Bool) (other : List Part)
  /-- The value without what a pattern matches at one of its ends. -/
  | cut (how : Cut) (pattern : List Part)
  /-- A failure: the expansion is not well-formed. -/
  | bad

/-- A command; the line is the one that diagnoses name. -/
inductive Command where
  | nothing
  /-- Assignments, a command word with its arguments, and redirections. -/
  | simple (line : Nat) (assignments : List (String × List Part)) (words : List (List Part))
      (redirects : List (Redirect (List Part)))
  | pipeline (stages : List Command)
  | negated (body : Command)
  | both (first second : Command)
  | either (first second : Command)
  | sequence (first second : Command)
  | background (body : Command)
  | subshell (line : Nat) (body : Command)
  | redirected (line : Nat) (body : Command) (redirects : List (Redirect (List Part)))
  | conditional (test yes no : Command)
  /-- Repeats the body as long as the test succeeds, or with `untilTrue` as long as it fails. -/
  | loop (untilTrue : Bool) (test body : Command)
  /-- Runs the body for each field of the words. -/
  | forEach (line : Nat) (name : String) (words : List (List Part)) (body : Command)
  /-- Runs the first branch one of whose patterns matches the word. -/
  | choose (line : Nat) (subject : List Part) (branches : List (List (List Part) × Command))
  | define (name : String) (body : Command)

end

abbrev Word := List Part

/-- The here-documents of a script, by their numbers. -/
abbrev Documents := Array Word

namespace Part

/-- The unquoted text that a part is, if it is one. -/
def plain? : Part → Option Text
  | .text s false => some s
  | _ => none

def isQuoted : Part → Bool
  | .text _ q | .param _ _ q | .output _ q | .arith _ q => q

end Part

/-- The unquoted text that a word is, if it is one. -/
def Word.plain? : Word → Option Text
  | [part] => part.plain?
  | _ => none

end Shell

end Conformance
