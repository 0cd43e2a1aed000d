import Conformance.Shell.State

set_option autoImplicit false

/-! # The wording of diagnoses

How tools name files, and themselves, in what they say. A name is put in quotes in such a way that a
shell would read it back; some tools do so only if a shell would not read the bare name back. A tool
names itself by the word that it was run by.
-/

namespace Conformance

namespace Tool

open Shell (Text)

def str (s : Text) : String := String.ofList s

/-! ## Names of files -/

def isPrintable (c : Char) : Bool := ' ' ≤ c && c.toNat < 0x7F

/-- A character that cannot be printed, as it is written behind a dollar sign within quotes. -/
def escape (c : Char) : Text :=
  let letters : List (Char × Char) :=
    [('\x07', 'a'), ('\x08', 'b'), ('\t', 't'), ('\n', 'n'), ('\x0b', 'v'), ('\x0c', 'f'),
     ('\r', 'r')]
  match letters.lookup c with
  | some letter => ['\\', letter]
  | none =>
    let digit (n : Nat) : Char := Char.ofNat (48 + n % 8)
    ['\\', digit (c.toNat / 64), digit (c.toNat / 8), digit c.toNat]

/-- What stands between single quotes for a text. `escaping` says that what stands in front is an
escape. -/
def withinQuotes (escaping : Bool) : Text → Text
  | [] => []
  | c :: rest =>
    if c = '\'' then "'\\''".toList ++ withinQuotes false rest
    else if isPrintable c then
      (if escaping then ['\'', '\''] else []) ++ c :: withinQuotes false rest
    else (if escaping then [] else "'$'".toList) ++ escape c ++ withinQuotes true rest

def specialCharacters : List Char := "!\"$&()*;<=>[^\x60|?\\".toList

/-- A name in quotes. Double quotes are taken if there are single quotes in the name and nothing that
means something within double quotes. -/
def quotedText (s : Text) : Text :=
  let plain (c : Char) : Bool := isPrintable c && !specialCharacters.contains c
  if s.contains '\'' ∧ s.all plain ∧ ¬ (s.drop 1).any (fun c => c = '#' || c = '~') then
    '"' :: s ++ ['"']
  else '\'' :: withinQuotes false s ++ ['\'']

def quoted (file : Bytes) : String := str (quotedText (Shell.State.ofBytes file))

/-- A name, in quotes only if a shell would not read it back without them, or if it has a colon. -/
def quotedIfNeeded (s : Text) : Text :=
  let special (c : Char) : Bool :=
    !isPrintable c || specialCharacters.contains c || c = ' ' || c = ':' || c = '\''
  let starts : Bool := s.head?.any fun c => c = '#' || c = '~'
  if s = [] ∨ s.any special ∨ starts ∨ s = ['\x7b'] ∨ s = ['\x7d'] then quotedText s else s

/-! ## Names of tools -/

/-- A line in which a tool names itself by the word that it was run by. -/
def renamedLine (own invoked line : Text) : Text :=
  let said := own ++ [':', ' ']
  let tried := "Try '".toList ++ own ++ [' ']
  if said.isPrefixOf line then invoked ++ line.drop own.length
  else if tried.isPrefixOf line then "Try '".toList ++ invoked ++ line.drop (tried.length - 1)
  else line

/-- The lines of a text, the last of which may be empty. -/
def allLines (text : Text) : List Text :=
  let (line, rest) := text.foldr (fun c (line, rest) =>
    if c = '\n' then ([], line :: rest) else (c :: line, rest)) (([], []) : Text × List Text)
  line :: rest

/-- What a tool says when it was run by another word than its own name. -/
def renamed (own invoked text : Text) : Text :=
  if own = invoked then text
  else ((allLines text).map (renamedLine own invoked)).intersperse ['\n'] |>.flatten

end Tool

end Conformance
