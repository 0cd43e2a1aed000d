set_option autoImplicit false

/-! # Numerals

The decimal numerals in which a number of seconds is given: an optional sign, then digits with at
most one point among them, then an optional exponent; or, in any case of letters, `inf`,
`infinity` or `nan`. A decimal numeral denotes an exact rational number, a whole number times a
power of ten.
-/

namespace Conformance

/-- What a numeral denotes. -/
inductive Numeral where
  | nan
  | infinity (negative : Bool)
  /-- The number `coefficient * 10 ^ exponent`, or its opposite. -/
  | decimal (negative : Bool) (coefficient : Nat) (exponent : Int)
  deriving DecidableEq, Repr

namespace Numeral

def isDigit (c : Char) : Bool := '0' ≤ c && c ≤ '9'

def digitValue (c : Char) : Nat := c.toNat - 48

def natOfDigits (digits : List Char) : Nat :=
  digits.foldl (fun n c => 10 * n + digitValue c) 0

/-- Reads an optional sign: whether it is a minus, and what follows. -/
def takeSign : List Char → Bool × List Char
  | '-' :: rest => (true, rest)
  | '+' :: rest => (false, rest)
  | rest => (false, rest)

/-- The exponent behind the letter `e`: an optional sign and at least one digit. -/
def exponent? (cs : List Char) : Option Int :=
  let (negative, digits) := takeSign cs
  if digits ≠ [] ∧ digits.all isDigit then
    let n : Int := natOfDigits digits
    some (if negative then -n else n)
  else none

/-- What may follow the digits of a decimal: nothing, or an exponent. -/
def exponentPart? : List Char → Option Int
  | [] => some 0
  | c :: rest => if c = 'e' ∨ c = 'E' then exponent? rest else none

/-- What follows the whole digits of a decimal: the digits behind the point, if there is one, and
the rest. -/
def takeFraction : List Char → List Char × List Char
  | '.' :: rest => (rest.takeWhile isDigit, rest.dropWhile isDigit)
  | rest => ([], rest)

/-- An unsigned decimal: at least one digit, a point anywhere among the digits or none, and an
optional exponent. -/
def decimal? (cs : List Char) : Option (Nat × Int) :=
  let whole := cs.takeWhile isDigit
  let (fraction, rest) := takeFraction (cs.dropWhile isDigit)
  if whole = [] ∧ fraction = [] then none
  else (exponentPart? rest).map fun exponent =>
    (natOfDigits (whole ++ fraction), exponent - fraction.length)

def lowerCase (c : Char) : Char := c.toLower

/-- Reads a numeral; the whole text must be one. -/
def parse? (text : String) : Option Numeral :=
  let (negative, cs) := takeSign text.toList
  let word := cs.map lowerCase
  if word = "nan".toList then some .nan
  else if word = "inf".toList ∨ word = "infinity".toList then some (.infinity negative)
  else (decimal? cs).map fun (coefficient, exponent) => .decimal negative coefficient exponent

end Numeral

end Conformance
