import Conformance.Shell.Command

set_option autoImplicit false

/-! # Shell patterns

Patterns that texts are compared with: a star matches any text, a question mark any character, and
brackets any character of a set. A quoted character matches itself.

A pattern can also be cut off one end of a text.
-/

namespace Conformance

namespace Shell

/-- A pattern: its characters, each with whether it was quoted. -/
abbrev Pattern := List (Char × Bool)

namespace Pattern

/-- The characters of a class with a name; none if there is no such class. -/
def classOf? (name : String) : Option (Char → Bool) :=
  let isGraph (c : Char) : Bool := '!' ≤ c && c ≤ '~'
  match name with
  | "alpha" => some Char.isAlpha
  | "digit" => some Char.isDigit
  | "alnum" => some Char.isAlphanum
  | "upper" => some Char.isUpper
  | "lower" => some Char.isLower
  | "space" => some fun c => c = ' ' || ('\t' ≤ c && c ≤ '\r')
  | "blank" => some fun c => c = ' ' || c = '\t'
  | "punct" => some fun c => isGraph c && !c.isAlphanum
  | "print" => some fun c => c = ' ' || isGraph c
  | "graph" => some isGraph
  | "cntrl" => some fun c => c < ' ' || c = '\x7f'
  | "xdigit" => some fun c => c.isDigit || ('a' ≤ c && c ≤ 'f') || ('A' ≤ c && c ≤ 'F')
  | _ => none

/-- The class that is named at the start of a pattern, behind its opening bracket and colon, and
what follows it. -/
def namedClass? (p : Pattern) : Option ((Char → Bool) × Pattern) :=
  let name := (p.takeWhile fun (c, _) => c.isAlpha).map (·.1)
  match p.drop name.length with
  | (':', _) :: (']', _) :: rest => (classOf? (String.ofList name)).map fun f => (f, rest)
  | _ => none

/-- Whether a character belongs to the set whose rest is given, and what follows its closing
bracket; none if it is not closed. The first character of a set does not close it. -/
def inSet? (c : Char) : (fuel : Nat) → (first : Bool) → Pattern → Option (Bool × Pattern)
  | 0, _, _ | _ + 1, _, [] => none
  | fuel + 1, first, (a, quoted) :: rest =>
    if a = ']' ∧ ¬ quoted ∧ ¬ first then some (false, rest)
    else
      let among (found : Bool) (rest : Pattern) : Option (Bool × Pattern) :=
        (inSet? c fuel false rest).map fun (others, rest) => (found || others, rest)
      let named := match a, quoted, rest with
        | '[', false, (':', _) :: rest => namedClass? rest
        | _, _, _ => none
      match named with
      | some (f, rest) => among (f c) rest
      | none =>
        match rest with
        | ('-', false) :: (b, q) :: after =>
          if b = ']' ∧ ¬ q then among (a = c) rest else among (a ≤ c && c ≤ b) after
        | _ => among (a = c) rest

/-- Whether a character belongs to the set behind an opening bracket, and what follows the set. -/
def memberOf? (c : Char) (p : Pattern) : Option (Bool × Pattern) :=
  match p with
  | ('!', false) :: rest =>
    (inSet? c (rest.length + 1) true rest).map fun (found, rest) => (!found, rest)
  | _ => inSet? c (p.length + 1) true p

/-- Whether a text matches a pattern; `fuel` bounds the steps, and the sum of both lengths is
enough. -/
def isMatch : (fuel : Nat) → Pattern → Text → Bool
  | 0, p, s => p.isEmpty && s.isEmpty
  | _ + 1, [], s => s.isEmpty
  | fuel + 1, ('*', false) :: p, s =>
    p.isEmpty || isMatch fuel p s ||
      match s with
      | [] => false
      | _ :: rest => isMatch fuel (('*', false) :: p) rest
  | _ + 1, _ :: _, [] => false
  | fuel + 1, ('?', false) :: p, _ :: s => isMatch fuel p s
  | fuel + 1, (c, quoted) :: p, d :: s =>
    match (if c = '[' ∧ ¬ quoted then memberOf? d p else none) with
    | some (found, p) => found && isMatch fuel p s
    | none => c = d && isMatch fuel p s

def accepts (p : Pattern) (s : Text) : Bool := isMatch (p.length + s.length + 1) p s

/-- Whether a pattern holds a character that does not stand for itself. -/
def isGeneral (p : Pattern) : Bool :=
  p.any fun (c, quoted) => !quoted && (c = '*' || c = '?' || c = '[')

/-! ## Cutting -/

/-- The lengths of the beginnings of a text, the shortest first. -/
def lengths (s : Text) : List Nat := List.range (s.length + 1)

/-- A text without what a pattern matches at one of its ends. -/
def cut (how : Cut) (p : Pattern) (s : Text) : Text :=
  let counts := if how.fromEnd = how.longest then lengths s else (lengths s).reverse
  if how.fromEnd then
    match counts.find? fun n => p.accepts (s.drop n) with
    | some n => s.take n
    | none => s
  else
    match counts.find? fun n => p.accepts (s.take n) with
    | some n => s.drop n
    | none => s

end Pattern

end Shell

end Conformance
