import Conformance.Shell.Token

set_option autoImplicit false

/-! # Shell arithmetic

The value of an arithmetic expression: whole numbers of 64 bits, variables, assignments, and the
usual operators with their usual precedence. Comparisons and logical operators give one or zero; an
operand that is not wanted is read but not evaluated.

The variables are in a store of any kind, which an expression may change.
-/

namespace Conformance

namespace Shell

namespace Arithmetic

/-! ## Numbers -/

/-- A number as it is kept in 64 bits, the first of which is the sign. -/
def wrap (n : Int) : Int := Int.bmod n UInt64.size

def largest : Int := Int.pow 2 63 - 1

/-- A character that numbers may be surrounded with. -/
def isSpace (c : Char) : Bool :=
  c = ' ' || c = '\t' || c = '\n' || c = '\x0b' || c = '\x0c' || c = '\r'

/-- The value of a digit in any base up to sixteen. -/
def digit? (c : Char) : Option Nat :=
  if c.isDigit then some (c.toNat - 48)
  else if 'a' ≤ c ∧ c ≤ 'f' then some (c.toNat - 87)
  else if 'A' ≤ c ∧ c ≤ 'F' then some (c.toNat - 55)
  else none

def isDigitIn (base : Nat) (c : Char) : Bool := (digit? c).any (· < base)

/-- The number that digits in a base denote. -/
def ofDigits (base : Nat) (digits : Text) : Nat :=
  digits.foldl (fun n c => base * n + (digit? c).getD 0) 0

/-- The natural number at the start of a text, in the base that its first characters name: sixteen
behind `0x`, eight behind another zero, otherwise ten. With it what follows the number. -/
def readNatural (s : Text) : Nat × Text :=
  let read (base : Nat) (s : Text) : Nat × Text :=
    let digits := s.takeWhile (isDigitIn base)
    (ofDigits base digits, s.drop digits.length)
  match s with
  | '0' :: 'x' :: c :: rest => if isDigitIn 16 c then read 16 (c :: rest) else (0, 'x' :: c :: rest)
  | '0' :: 'X' :: c :: rest => if isDigitIn 16 c then read 16 (c :: rest) else (0, 'X' :: c :: rest)
  | '0' :: rest => read 8 ('0' :: rest)
  | s => read 10 s

/-- A text without its sign, and whether the sign is a minus. -/
def readSign (s : Text) : Bool × Text :=
  match s with
  | '-' :: rest => (true, rest)
  | '+' :: rest => (false, rest)
  | rest => (false, rest)

def signed (negative : Bool) (n : Nat) : Int := if negative then -(n : Int) else n

def fits (n : Int) : Bool := -largest - 1 ≤ n && n ≤ largest

/-- The number that a text denotes in base ten, with blanks around it and an optional sign. -/
def number? (s : Text) : Option Int :=
  let (negative, rest) := readSign (s.dropWhile isSpace)
  let digits := rest.takeWhile Char.isDigit
  let n := signed negative (ofDigits 10 digits)
  if digits ≠ [] ∧ (rest.drop digits.length).all isSpace ∧ fits n then some n else none

/-- The number that the value of a variable denotes, in any base; a blank text is zero. -/
def value? (s : Text) : Option Int :=
  let s := s.dropWhile isSpace
  if s = [] then some 0
  else
    let (negative, rest) := readSign s
    let (n, after) := readNatural rest
    let n := signed negative n
    if rest.head?.any Char.isDigit ∧ after.all isSpace ∧ fits n then some n else none

/-! ## Tokens of an expression -/

/-- A token of an expression. -/
inductive Item where
  | number (n : Int)
  | variable (name : String)
  | operator (name : String)
  /-- A character that cannot occur in an expression. -/
  | bad
  deriving DecidableEq, Repr

/-- The operators, longer names first. -/
def operators : List String :=
  ["<<=", ">>=", "||", "&&", "==", "!=", "<=", ">=", "<<", ">>", "*=", "/=", "%=", "+=", "-=", "&=",
   "^=", "|=", "=", "|", "^", "&", "<", ">", "+", "-", "*", "/", "%", "~", "!", "?", ":", "(", ")"]

/-- The tokens of an expression; `fuel` bounds their number and that of the blanks. -/
def items : (fuel : Nat) → Text → List Item
  | 0, _ | _ + 1, [] => []
  | fuel + 1, c :: rest =>
    if c = ' ' ∨ c = '\t' ∨ c = '\n' then items fuel rest
    else if c.isDigit then
      let (n, after) := readNatural (c :: rest)
      .number (min n largest) :: items fuel after
    else if Token.startsName c then
      let name := (c :: rest).takeWhile Token.isNameChar
      .variable (String.ofList name) :: items fuel ((c :: rest).drop name.length)
    else match operators.find? fun o => o.toList.isPrefixOf (c :: rest) with
      | some o => .operator o :: items fuel ((c :: rest).drop o.length)
      | none => [.bad]

/-- How strongly a binary operator binds. -/
def strength? (name : String) : Option Nat :=
  match name with
  | "*" | "/" | "%" => some 8
  | "+" | "-" => some 7
  | "<<" | ">>" => some 6
  | "<" | "<=" | ">" | ">=" => some 5
  | "==" | "!=" => some 4
  | "&" => some 3
  | "^" => some 2
  | "|" => some 1
  | _ => none

/-- The binary operator that an assignment operator applies; none is the plain assignment. -/
def assigning? (name : String) : Option (Option String) :=
  if name = "=" then some none
  else
    (["*", "/", "%", "+", "-", "<<", ">>", "&", "^", "|"].find? fun o => name = o ++ "=").map some

/-- A truth value as a number. -/
def ofBool (b : Bool) : Int := if b then 1 else 0

def bitwise (f : BitVec 64 → BitVec 64 → BitVec 64) (a b : Int) : Int :=
  (f (BitVec.ofInt 64 a) (BitVec.ofInt 64 b)).toInt

def apply (name : String) (a b : Int) : Option Int :=
  let shift : Nat := (b % 64).toNat
  match name with
  | "==" => some (ofBool (a = b))
  | "!=" => some (ofBool (a ≠ b))
  | "<=" => some (ofBool (a ≤ b))
  | ">=" => some (ofBool (b ≤ a))
  | "<" => some (ofBool (a < b))
  | ">" => some (ofBool (b < a))
  | "<<" => some (wrap (a * Int.pow 2 shift))
  | ">>" => some (a / Int.pow 2 shift)
  | "+" => some (wrap (a + b))
  | "-" => some (wrap (a - b))
  | "*" => some (wrap (a * b))
  | "/" => if b = 0 then none else some (wrap (a.tdiv b))
  | "%" => if b = 0 then none else some (a.tmod b)
  | "|" => some (bitwise (· ||| ·) a b)
  | "^" => some (bitwise (· ^^^ ·) a b)
  | "&" => some (bitwise (· &&& ·) a b)
  | _ => none

/-! ## Evaluation -/

/-- Access to the variables in a store. -/
structure Access (σ : Type) where
  get : σ → String → Option Text
  /-- Sets a variable; a failure has a message. -/
  set : σ → String → Text → Except String σ

/-- Why an expression has no value. -/
inductive Failure where
  | expression (message : String)
  | variable (message : String)
  deriving DecidableEq, Repr

/-- What is left of an expression, and the store. -/
structure Progress (σ : Type) where
  rest : List Item
  store : σ

/-- A calculation. -/
abbrev Calc (σ : Type) (α : Type) := StateT (Progress σ) (Except Failure) α

section

variable {σ : Type} (access : Access σ)

/-- Takes a token, if it is the given operator. -/
def takeOperator (o : String) : Calc σ Bool := do
  let s ← get
  match s.rest with
  | .operator name :: rest =>
    if name = o then
      set { s with rest := rest }
      return true
    else return false
  | _ => return false

def fails {α : Type} (message : String) : Calc σ α := throw (.expression message)

def valueOf (name : String) : Calc σ Int := do
  let text := (access.get (← get).store name).getD []
  match value? text with
  | some n => return n
  | none => throw (.variable ("Illegal number: " ++ String.ofList text))

def assign (name : String) (n : Int) : Calc σ Unit := do
  let s ← get
  match access.set s.store name (toString n).toList with
  | .ok store => set { s with store := store }
  | .error message => throw (.variable message)

def applied (name : String) (a b : Int) : Calc σ Int :=
  match apply name a b with
  | some n => return n
  | none => fails "division by zero"

mutual

/-- The value of an operand. It is evaluated only if `wanted`. -/
def operand (wanted : Bool) : (fuel : Nat) → Calc σ Int
  | 0 => fails "expecting primary"
  | fuel + 1 => do
    let s ← get
    match s.rest with
    | .number n :: rest =>
      set { s with rest := rest }
      return n
    | .variable name :: rest =>
      set { s with rest := rest }
      if wanted then valueOf access name else return 0
    | .operator "(" :: rest =>
      set { s with rest := rest }
      let n ← assignment wanted fuel
      if ← takeOperator ")" then return n else fails "expecting ')'"
    | .operator "+" :: rest =>
      set { s with rest := rest }
      operand wanted fuel
    | .operator "-" :: rest =>
      set { s with rest := rest }
      return wrap (-(← operand wanted fuel))
    | .operator "!" :: rest =>
      set { s with rest := rest }
      return ofBool ((← operand wanted fuel) = 0)
    | .operator "~" :: rest =>
      set { s with rest := rest }
      return -(← operand wanted fuel) - 1
    | _ => fails "expecting primary"

/-- The value of operands joined by binary operators that bind at least as strongly as given, the
first of which has been read. -/
def further (wanted : Bool) (strength : Nat) : (fuel : Nat) → Int → Calc σ Int
  | 0, a => return a
  | fuel + 1, a => do
    let s ← get
    match s.rest with
    | .operator name :: rest =>
      match strength? name with
      | some own =>
        if own < strength then return a
        else
          set { s with rest := rest }
          let b ← operand wanted fuel
          let b ← further wanted (own + 1) fuel b
          let n ← if wanted then applied name a b else pure b
          further wanted strength fuel n
      | none => return a
    | _ => return a

/-- The value of operands joined by binary operators. -/
def binary (wanted : Bool) : (fuel : Nat) → Calc σ Int
  | 0 => fails "expecting primary"
  | fuel + 1 => do
    let a ← operand wanted fuel
    further wanted 0 fuel a

/-- The value of conditions that must all hold. -/
def both (wanted : Bool) : (fuel : Nat) → Calc σ Int
  | 0 => fails "expecting primary"
  | fuel + 1 => do
    let a ← binary wanted fuel
    if ← takeOperator "&&" then
      let b ← both (wanted && a ≠ 0) fuel
      return ofBool (a ≠ 0 && b ≠ 0)
    else return a

/-- The value of conditions one of which must hold. -/
def either (wanted : Bool) : (fuel : Nat) → Calc σ Int
  | 0 => fails "expecting primary"
  | fuel + 1 => do
    let a ← both wanted fuel
    if ← takeOperator "||" then
      let b ← either (wanted && a = 0) fuel
      return ofBool (a ≠ 0 || b ≠ 0)
    else return a

/-- The value of a choice between two expressions. -/
def choice (wanted : Bool) : (fuel : Nat) → Calc σ Int
  | 0 => fails "expecting primary"
  | fuel + 1 => do
    let a ← either wanted fuel
    if ← takeOperator "?" then
      let b ← assignment (wanted && a ≠ 0) fuel
      if ← takeOperator ":" then
        let c ← choice (wanted && a = 0) fuel
        return if a ≠ 0 then b else c
      else fails "expecting ':'"
    else return a

/-- The value of an assignment, or of a choice. -/
def assignment (wanted : Bool) : (fuel : Nat) → Calc σ Int
  | 0 => fails "expecting primary"
  | fuel + 1 => do
    let s ← get
    match s.rest with
    | .variable name :: .operator o :: rest =>
      match assigning? o with
      | some combining =>
        set { s with rest := rest }
        let n ← assignment wanted fuel
        if wanted then
          let n ← match combining with
            | none => pure n
            | some o => applied o (← valueOf access name) n
          assign access name n
          return n
        else return n
      | none => choice wanted fuel
    | _ => choice wanted fuel

end

/-- The value of an expression, and the store after it. -/
def eval (source : Text) (store : σ) : Except String (Int × σ) :=
  let rest := items (source.length + 1) source
  let whole : Calc σ Int := do
    let n ← assignment access true (8 * source.length + 16)
    if (← get).rest.isEmpty then return n else fails "expecting EOF"
  match StateT.run whole ⟨rest, store⟩ with
  | .ok (n, s) => .ok (n, s.store)
  | .error (.variable message) => .error message
  | .error (.expression message) =>
    .error ("arithmetic expression: " ++ message ++ ": \"" ++ String.ofList source ++ "\"")

end

end Arithmetic

end Shell

end Conformance
