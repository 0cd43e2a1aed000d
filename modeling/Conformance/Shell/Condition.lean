import Conformance.Shell.Arithmetic

set_option autoImplicit false

/-! # Conditions

The conditions that `test` decides: comparisons of texts and of numbers, questions about files, and
their combinations. What is asked about files is answered by a function.

Whether a word is an operator depends on the words behind it: a question without an operand, or in
front of a comparison operator, is an ordinary text. Up to four words are read by their number alone
where that gives them a meaning.
-/

namespace Conformance

namespace Shell

namespace Condition

/-- Answers a question about a file: its letter and the path. -/
abbrev Files := Char → Text → Bool

/-- What a word is in a condition. -/
inductive Lexeme where
  | finish
  | operand
  | unary (letter : Char)
  | binary (name : String)
  | not
  | and
  | or
  | opening
  | closing
  deriving DecidableEq, Repr

def letters : List Char := "rwxefdcbpugkstznhOGLS".toList

def comparisons : List String :=
  ["=", "!=", "<", ">", "-eq", "-ne", "-ge", "-gt", "-le", "-lt", "-nt", "-ot", "-ef"]

/-- The operator that a word spells, if it spells one. -/
def operator? (word : Text) : Option Lexeme :=
  match word with
  | ['!'] => some .not
  | ['('] => some .opening
  | [')'] => some .closing
  | ['-', 'a'] => some .and
  | ['-', 'o'] => some .or
  | _ =>
    let name := String.ofList word
    if comparisons.contains name then some (.binary name)
    else match word with
      | ['-', letter] => if letters.contains letter then some (.unary letter) else none
      | _ => none

def isComparison (word : Text) : Bool :=
  match operator? word with
  | some (.binary _) => true
  | _ => false

/-- Whether a question in front of the given words is an ordinary text. -/
def isText (behind : List Text) : Bool :=
  match behind with
  | [] => true
  | [_] => false
  | word :: _ => isComparison word

/-- What the first of some words is. -/
def lexeme (words : List Text) : Lexeme :=
  match words with
  | [] => .finish
  | word :: behind =>
    match operator? word with
    | some (.unary letter) => if isText behind then .operand else .unary letter
    | some .opening => if behind = [] then .operand else .opening
    | some other => other
    | none => .operand

/-- The number that a word denotes. -/
def numberOf (word : Text) : Except String Int :=
  match Arithmetic.number? word with
  | some n => .ok n
  | none => .error ("Illegal number: " ++ String.ofList word)

def compare (name : String) (a b : Text) : Except String Bool :=
  let numbers (f : Int → Int → Bool) : Except String Bool := do
    return f (← numberOf a) (← numberOf b)
  match name with
  | "=" => .ok (a = b)
  | "!=" => .ok (a ≠ b)
  | "<" => .ok (decide (a < b))
  | ">" => .ok (decide (b < a))
  | "-eq" => numbers fun m n => m = n
  | "-ne" => numbers fun m n => m ≠ n
  | "-lt" => numbers fun m n => m < n
  | "-le" => numbers fun m n => m ≤ n
  | "-gt" => numbers fun m n => n < m
  | "-ge" => numbers fun m n => n ≤ m
  | _ => .ok false

/-- The answer to a question with one operand. -/
def answer (files : Files) (letter : Char) (operand : Text) : Except String Bool :=
  match letter with
  | 'n' => .ok (operand ≠ [])
  | 'z' => .ok (operand = [])
  | 't' => (numberOf operand).map fun _ => false
  | _ => .ok (files letter operand)

/-- How far a condition has been read: the word that was read last, and those behind it. -/
structure Position where
  last : Text
  behind : List Text

def Position.next (p : Position) : Position := ⟨p.behind.head?.getD [], p.behind.tail⟩

/-- The outcome of a part of a condition, and where it ends. -/
abbrev Outcome := Except String (Bool × Position)

mutual

/-- The outcome of an elementary condition or of one in brackets. -/
def primary (files : Files) : (fuel : Nat) → Lexeme → Position → Outcome
  | 0, _, _ => .error "argument expected"
  | fuel + 1, lex, p =>
    match lex with
    | .finish => .ok (false, p)
    | .opening =>
      let inner := lexeme p.behind
      if inner = .closing then .ok (false, p.next)
      else
        match either files fuel inner p.next with
        | .error e => .error e
        | .ok (v, p) =>
          if lexeme p.behind = .closing then .ok (v, p.next) else .error "closing paren expected"
    | .unary letter =>
      match p.behind with
      | [] => .error (String.ofList ['-', letter] ++ ": argument expected")
      | operand :: _ => (answer files letter operand).map fun v => (v, p.next)
    | _ =>
      match lexeme p.behind with
      | .binary name =>
        match p.behind with
        | _ :: b :: _ => (compare name p.last b).map fun v => (v, p.next.next)
        | _ => .error (name ++ ": argument expected")
      | _ => .ok (p.last ≠ [], p)

/-- The outcome of a condition that may be negated. -/
def negatable (files : Files) : (fuel : Nat) → Lexeme → Position → Outcome
  | 0, _, _ => .error "argument expected"
  | fuel + 1, lex, p =>
    if lex = .not then
      let inner := lexeme p.behind
      (negatable files fuel inner (if inner = .finish then p else p.next)).map
        fun (v, p) => (!v, p)
    else primary files fuel lex p

/-- The outcome of conditions joined by "and". -/
def both (files : Files) : (fuel : Nat) → Lexeme → Position → Outcome
  | 0, _, _ => .error "argument expected"
  | fuel + 1, lex, p =>
    match negatable files fuel lex p with
    | .error e => .error e
    | .ok (v, p) =>
      if lexeme p.behind = .and then
        (both files fuel (lexeme p.next.behind) p.next.next).map fun (w, p) => (v && w, p)
      else .ok (v, p)

/-- The outcome of conditions joined by "or". -/
def either (files : Files) : (fuel : Nat) → Lexeme → Position → Outcome
  | 0, _, _ => .error "argument expected"
  | fuel + 1, lex, p =>
    match both files fuel lex p with
    | .error e => .error e
    | .ok (v, p) =>
      if lexeme p.behind = .or then
        (either files fuel (lexeme p.next.behind) p.next.next).map fun (w, p) => (v || w, p)
      else .ok (v, p)

end

/-- The outcome of a condition that is read by its operators, the first of which is given. -/
def evaluate (files : Files) (lex : Lexeme) (words : List Text) : Except String Bool :=
  match words with
  | [] => .ok false
  | first :: behind =>
    match either files (8 * words.length + 8) lex ⟨first, behind⟩ with
    | .error e => .error e
    | .ok (v, p) =>
      if p.behind = [] then .ok v
      else if p.last = [] then .error "unexpected operator"
      else .error (String.ofList p.last ++ ": unexpected operator")

/-- The outcome of a condition. No words at all are false. -/
def decide (files : Files) (words : List Text) : Except String Bool :=
  match words with
  | [] => .ok false
  | first :: rest =>
    let comparison : Bool := match words with
      | [_, middle, _] => isComparison middle
      | _ => false
    if comparison then evaluate files .operand words
    else if words.length = 3 ∨ words.length = 4 then
      if first = ['('] ∧ words.getLast? = some [')'] then
        evaluate files (lexeme rest.dropLast) rest.dropLast
      else if first = ['!'] then (decide files rest).map (!·)
      else evaluate files (lexeme words) words
    else evaluate files (lexeme words) words
  termination_by words.length

end Condition

end Shell

end Conformance
