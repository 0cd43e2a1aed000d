import Conformance.Shell.Pattern

set_option autoImplicit false

/-! # Regular expressions

The expressions that lines are searched for, in their basic and in their extended form, and where
they match. Of the matches that start first the longest one counts.
-/

namespace Conformance

open Shell (Text)

inductive Regex where
  | empty
  | char (c : Char)
  | any
  /-- A character of a set, or with `negated` one that is not in it. -/
  | set (negated : Bool) (ranges : List (Char × Char)) (classes : List String)
  | start
  | finish
  /-- A place between a character of a word and another one: the start of a word, its end, or
  either. -/
  | border (atStart atEnd : Bool)
  | sequence (a b : Regex)
  | either (a b : Regex)
  /-- The expression several times: at least `least` times, and at most `most` times if there is a
  limit. -/
  | repeated (r : Regex) (least : Nat) (most : Option Nat)
  /-- An expression that is referred to by its number. -/
  | group (n : Nat) (r : Regex)
  /-- What a group has matched. -/
  | reference (n : Nat)

namespace Regex

/-! ## Reading -/

abbrev Read := Except String (Regex × Text × Nat)

/-- The characters of a bracket expression behind its opening bracket. -/
def readSet : (fuel : Nat) → (first : Bool) → Text →
    Except String (List (Char × Char) × List String × Text)
  | 0, _, _ | _ + 1, _, [] => .error "Unmatched [, [^, [:, [., or [="
  | fuel + 1, first, c :: rest =>
    if c = ']' ∧ ¬ first then .ok ([], [], rest)
    else
      match c, rest with
      | '[', ':' :: more =>
        let name := more.takeWhile Char.isAlpha
        (readSet fuel false (more.drop (name.length + 2))).map fun (rs, cs, rest) =>
          (rs, String.ofList name :: cs, rest)
      | _, '-' :: d :: more =>
        if d = ']' then
          (readSet fuel false rest).map fun (rs, cs, rest) => ((c, c) :: rs, cs, rest)
        else (readSet fuel false more).map fun (rs, cs, rest) => ((c, d) :: rs, cs, rest)
      | _, _ => (readSet fuel false rest).map fun (rs, cs, rest) => ((c, c) :: rs, cs, rest)

def readCount (s : Text) : Option Nat × Text :=
  let digits := s.takeWhile Char.isDigit
  (if digits = [] then none else (String.ofList digits).toNat?, s.drop digits.length)

/-- A repetition count in braces, behind the opening one. -/
def readInterval (extended : Bool) (s : Text) : Option (Nat × Option Nat × Text) :=
  let (least, rest) := readCount s
  let (most, rest) : Option Nat × Text := match rest with
    | ',' :: rest => readCount rest
    | _ => (least, rest)
  match extended, rest with
  | true, '\x7d' :: rest => some (least.getD 0, most, rest)
  | false, '\\' :: '\x7d' :: rest => some (least.getD 0, most, rest)
  | _, _ => none

/-- The repetitions behind an expression; `fuel` bounds their number. -/
def readRepeats (extended : Bool) : (fuel : Nat) → Regex → Text → Regex × Text
  | 0, r, s => (r, s)
  | fuel + 1, r, s =>
    let interval (rest : Text) : Regex × Text :=
      match readInterval extended rest with
      | some (least, most, rest) => readRepeats extended fuel (.repeated r least most) rest
      | none => (r, s)
    match extended, s with
    | _, '*' :: rest => readRepeats extended fuel (.repeated r 0 none) rest
    | true, '+' :: rest | false, '\\' :: '+' :: rest =>
      readRepeats extended fuel (.repeated r 1 none) rest
    | true, '?' :: rest | false, '\\' :: '?' :: rest =>
      readRepeats extended fuel (.repeated r 0 (some 1)) rest
    | true, '\x7b' :: rest => interval rest
    | false, '\\' :: '\x7b' :: rest => interval rest
    | _, _ => (r, s)

/-- The expression that a letter behind a backslash stands for, if it stands for one. -/
def escaped? (c : Char) : Option Regex :=
  match c with
  | 'n' => some (.char '\n')
  | 't' => some (.char '\t')
  | 'w' => some (.set false [('_', '_')] ["alnum"])
  | 'W' => some (.set true [('_', '_')] ["alnum"])
  | 's' => some (.set false [] ["space"])
  | 'S' => some (.set true [] ["space"])
  | 'b' => some (.border true true)
  | '<' => some (.border true false)
  | '>' => some (.border false true)
  | _ => if c.isDigit ∧ c ≠ '0' then some (.reference (c.toNat - 48)) else none

/-- Whether a text starts with what ends a sequence. -/
def endsSequence (extended : Bool) (depth : Nat) (s : Text) : Bool :=
  match extended, s with
  | _, [] => true
  | true, '|' :: _ => true
  | true, ')' :: _ => 0 < depth
  | false, '\\' :: '|' :: _ => true
  | false, '\\' :: ')' :: _ => true
  | _, _ => false

mutual

def readEither (extended : Bool) (depth : Nat) : (fuel : Nat) → Nat → Text → Read
  | 0, _, _ => .error "Regular expression too big"
  | fuel + 1, n, s =>
    match readSequence extended depth true fuel n s with
    | .error e => .error e
    | .ok (a, rest, n) =>
      let further (rest : Text) : Read :=
        (readEither extended depth fuel n rest).map fun (b, rest, n) => (.either a b, rest, n)
      match extended, rest with
      | true, '|' :: rest => further rest
      | false, '\\' :: '|' :: rest => further rest
      | _, _ => .ok (a, rest, n)
  termination_by structural fuel => fuel

/-- Reads expressions that follow each other. -/
def readSequence (extended : Bool) (depth : Nat) (first : Bool) :
    (fuel : Nat) → Nat → Text → Read
  | 0, _, _ => .error "Regular expression too big"
  | fuel + 1, n, s =>
    if endsSequence extended depth s then .ok (.empty, s, n)
    else
      match readAtom extended depth first fuel n s with
      | .error e => .error e
      | .ok (a, rest, n) =>
        let plain : Bool := match a with
          | .start => !extended
          | _ => false
        let (a, rest) := if plain then (a, rest) else readRepeats extended rest.length a rest
        (readSequence extended depth plain fuel n rest).map fun (b, rest, n) =>
          (.sequence a b, rest, n)
  termination_by structural fuel => fuel

/-- Reads one expression; `first` says that it is the first one of a sequence. -/
def readAtom (extended : Bool) (depth : Nat) (first : Bool) : (fuel : Nat) → Nat → Text → Read
  | 0, _, _ => .error "Regular expression too big"
  | fuel + 1, n, s =>
    let group (rest : Text) : Read :=
      match readEither extended (depth + 1) fuel (n + 1) rest with
      | .error e => .error e
      | .ok (r, rest, next) =>
        match extended, rest with
        | true, ')' :: rest => .ok (.group n r, rest, next)
        | false, '\\' :: ')' :: rest => .ok (.group n r, rest, next)
        | _, _ => .error "Unmatched ( or \\("
    match s with
    | [] => .ok (.empty, [], n)
    | '.' :: rest => .ok (.any, rest, n)
    | '[' :: '^' :: rest =>
      (readSet (rest.length + 1) true rest).map fun (rs, cs, rest) => (.set true rs cs, rest, n)
    | '[' :: rest =>
      (readSet (rest.length + 1) true rest).map fun (rs, cs, rest) => (.set false rs cs, rest, n)
    | '^' :: rest =>
      if extended ∨ first then .ok (.start, rest, n) else .ok (.char '^', rest, n)
    | '$' :: rest =>
      if extended ∨ endsSequence extended depth rest then .ok (.finish, rest, n)
      else .ok (.char '$', rest, n)
    | '(' :: rest => if extended then group rest else .ok (.char '(', rest, n)
    | '\\' :: c :: rest =>
      if c = '(' ∧ ¬ extended then group rest
      else match escaped? c with
        | some r => .ok (r, rest, n)
        | none => .ok (.char c, rest, n)
    | ['\\'] => .error "Trailing backslash"
    | c :: rest => .ok (.char c, rest, n)
  termination_by structural fuel => fuel

end

def parse (extended : Bool) (s : Text) : Except String Regex :=
  match readEither extended 0 (8 * s.length + 16) 1 s with
  | .error e => .error e
  | .ok (r, [], _) => .ok r
  | .ok _ => .error "Unmatched ) or \\)"

def literal (s : Text) : Regex := s.foldr (fun c r => .sequence (.char c) r) .empty

/-! ## Matching -/

/-- How far a match has come: its end, the character in front of that, what follows, and what the
groups have matched. -/
structure Reached where
  position : Nat
  before : Option Char
  rest : Text
  groups : List (Nat × Text)

def Reached.step (m : Reached) : Reached :=
  match m.rest with
  | [] => m
  | c :: rest => { m with position := m.position + 1, before := some c, rest := rest }

def Reached.advance (m : Reached) : Nat → Reached
  | 0 => m
  | n + 1 => m.step.advance n

/-- The matches without those that end where an earlier one does. -/
def distinct : List Reached → List Reached
  | [] => []
  | m :: rest => m :: (distinct rest).filter (·.position ≠ m.position)

/-- A character of a word. -/
def isWordChar (c : Char) : Bool := c.isAlphanum || c = '_'

def inSet (ranges : List (Char × Char)) (classes : List String) (c : Char) : Bool :=
  ranges.any (fun (a, b) => a ≤ c && c ≤ b) ||
    classes.any fun name => (Shell.Pattern.classOf? name).any fun f => f c

/-- The ways to match an expression from a place, the preferred ones first. `fold` says that the
case of letters does not matter; `fuel` bounds the number of repetitions. -/
def ways (fold : Bool) : (fuel : Nat) → Regex → Reached → List Reached
  | 0, _, _ => []
  | fuel + 1, r, m =>
    let onChar (p : Char → Bool) : List Reached :=
      match m.rest with
      | [] => []
      | c :: _ =>
        if p c || (fold && (p c.toLower || p c.toUpper)) then [m.step] else []
    match r with
    | .empty => [m]
    | .char c => onChar (· = c)
    | .any => onChar fun _ => true
    | .set negated ranges classes =>
      match m.rest with
      | [] => []
      | c :: _ =>
        let found := inSet ranges classes c ||
          (fold && (inSet ranges classes c.toLower || inSet ranges classes c.toUpper))
        if found ≠ negated then [m.step] else []
    | .start => if m.position = 0 then [m] else []
    | .finish => if m.rest = [] then [m] else []
    | .border atStart atEnd =>
      let left := m.before.any isWordChar
      let right := m.rest.head?.any isWordChar
      if (atStart && !left && right) || (atEnd && left && !right) then [m] else []
    | .sequence a b => distinct ((ways fold fuel a m).flatMap (ways fold fuel b))
    | .either a b => distinct (ways fold fuel a m ++ ways fold fuel b m)
    | .group n r =>
      (ways fold fuel r m).map fun e =>
        { e with groups := (n, m.rest.take (e.position - m.position)) :: e.groups }
    | .reference n =>
      let text := (m.groups.lookup n).getD []
      if text.isPrefixOf m.rest then [m.advance text.length] else []
    | .repeated r least most =>
      let once := (ways fold fuel r m).filter fun e => 0 < least || m.position < e.position
      let more := if most = some 0 then []
        else distinct (once.flatMap
          (ways fold fuel (.repeated r (least - 1) (most.map (· - 1)))))
      if least = 0 then more ++ [m] else more

/-- The longest of some matches; of equally long ones the first. -/
def longest : List Reached → Option Reached
  | [] => none
  | m :: rest =>
    match longest rest with
    | some other => if m.position < other.position then some other else some m
    | none => some m

/-- A match: where it starts, its text, what the groups have matched, and what follows it. -/
structure Found where
  start : Nat
  text : Text
  groups : List (Nat × Text)
  rest : Text

/-- The first match at or behind a place; `count` bounds the places. -/
def searchFrom (fold : Bool) (r : Regex) : (count : Nat) → Reached → Option Found
  | 0, _ => none
  | count + 1, m =>
    match longest (ways fold (2 * m.rest.length + 200) r m) with
    | some e => some ⟨m.position, m.rest.take (e.position - m.position), e.groups, e.rest⟩
    | none => if m.rest = [] then none else searchFrom fold r count m.step

def search (fold : Bool) (r : Regex) (s : Text) : Option Found :=
  searchFrom fold r (s.length + 1) ⟨0, none, s, []⟩

/-- The matches in a text from a place on that do not overlap; `count` bounds their number. -/
def allFrom (fold : Bool) (r : Regex) : (count : Nat) → (blocked : Option Nat) → Reached →
    List Found
  | 0, _, _ => []
  | count + 1, blocked, m =>
    match searchFrom fold r (m.rest.length + 1) m with
    | none => []
    | some found =>
      let after := m.advance (found.start + found.text.length - m.position)
      if found.text = [] then
        let later := if after.rest = [] then [] else allFrom fold r count none after.step
        if blocked = some found.start then later else found :: later
      else found :: allFrom fold r count (some after.position) after

def all (fold : Bool) (r : Regex) (s : Text) : List Found :=
  allFrom fold r (2 * s.length + 2) none ⟨0, none, s, []⟩

end Regex

end Conformance
