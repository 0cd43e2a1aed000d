import Conformance.Json.Record

set_option autoImplicit false

/-! # Reading JSON

A reader of JSON texts, for the whole grammar: blanks, the three words, numbers with fraction and
exponent, strings with all escapes and surrogate pairs, arrays and objects. It knows nothing of the
records that reports are made of. Whatever does not follow the grammar is refused: a control
character in a string, a lone surrogate, a number with leading zeros, anything after the value.

Each reader takes the characters that are left and gives back what it has read and the characters
after it. Values are nested, so those readers are given an amount of fuel; `Json.read` provides more
than any text can use up.
-/

namespace Conformance

namespace Json

/-- A JSON value. A number is a whole number times a power of ten. -/
inductive Datum where
  | null
  | bool (b : Bool)
  | number (mantissa : Int) (exponent : Int)
  | text (s : String)
  | array (elements : List Datum)
  | object (members : List (String × Datum))
  deriving Repr

def Datum.member? (d : Datum) (name : String) : Option Datum :=
  match d with
  | .object members => members.lookup name
  | _ => none

/-! ## Blanks and words -/

def isSpace (c : Char) : Bool := c = ' ' || c = '\t' || c = '\n' || c = '\r'

def skipSpaces (cs : List Char) : List Char := cs.dropWhile isSpace

/-! ## Strings -/

def hexValue (c : Char) : Option Nat :=
  if '0' ≤ c ∧ c ≤ '9' then some (c.toNat - 48)
  else if 'a' ≤ c ∧ c ≤ 'f' then some (c.toNat - 87)
  else if 'A' ≤ c ∧ c ≤ 'F' then some (c.toNat - 55)
  else none

/-- Reads the four digits of an escape by code. -/
def readUnit : List Char → Option (Nat × List Char)
  | a :: b :: c :: d :: rest => do
    let a ← hexValue a
    let b ← hexValue b
    let c ← hexValue c
    let d ← hexValue d
    return (((a * 16 + b) * 16 + c) * 16 + d, rest)
  | _ => none

/-- Reads the second half of a surrogate pair, with its escape, and makes a character of both. -/
def readLowSurrogate (high : Nat) : List Char → Option (Char × List Char)
  | '\\' :: 'u' :: rest => do
    let (low, rest) ← readUnit rest
    if 0xDC00 ≤ low ∧ low ≤ 0xDFFF then
      return (Char.ofNat (0x10000 + (high - 0xD800) * 0x400 + (low - 0xDC00)), rest)
    else none
  | _ => none

/-- Reads an escape by code, which may be the first half of a surrogate pair. -/
def readEscapeByCode (cs : List Char) : Option (Char × List Char) := do
  let (n, rest) ← readUnit cs
  if n < 0xD800 ∨ 0xDFFF < n then return (Char.ofNat n, rest)
  else if n < 0xDC00 then readLowSurrogate n rest
  else none

def readEscape : List Char → Option (Char × List Char)
  | '"' :: rest => some ('"', rest)
  | '\\' :: rest => some ('\\', rest)
  | '/' :: rest => some ('/', rest)
  | 'b' :: rest => some ('\x08', rest)
  | 'f' :: rest => some ('\x0c', rest)
  | 'n' :: rest => some ('\n', rest)
  | 'r' :: rest => some ('\r', rest)
  | 't' :: rest => some ('\t', rest)
  | 'u' :: rest => readEscapeByCode rest
  | _ => none

def readChar : List Char → Option (Char × List Char)
  | [] => none
  | c :: rest =>
    if c = '\\' then readEscape rest
    else if c.toNat < 0x20 then none
    else some (c, rest)

def readText : Nat → List Char → Option (List Char × List Char)
  | 0, _ => none
  | _ + 1, '"' :: rest => some ([], rest)
  | fuel + 1, cs => do
    let (c, rest) ← readChar cs
    let (more, rest) ← readText fuel rest
    return (c :: more, rest)

/-! ## Numbers -/

/-- Reads the whole part of a number, which has no leading zeros. -/
def readWhole : List Char → Option (List Char × List Char)
  | '0' :: rest => some (['0'], rest)
  | cs => if cs.takeWhile Char.isDigit = [] then none
    else some (cs.takeWhile Char.isDigit, cs.dropWhile Char.isDigit)

def readDigits (cs : List Char) : Option (List Char × List Char) :=
  if cs.takeWhile Char.isDigit = [] then none
  else some (cs.takeWhile Char.isDigit, cs.dropWhile Char.isDigit)

/-- Reads the fraction of a number, if it has one. -/
def readFraction : List Char → Option (List Char × List Char)
  | '.' :: rest => readDigits rest
  | cs => some ([], cs)

/-- Reads the digits of an exponent. -/
def readPower (negative : Bool) (cs : List Char) : Option (Int × List Char) := do
  let (digits, rest) ← readDigits cs
  let n : Int := Nat.ofDigitChars 10 digits 0
  return (if negative then -n else n, rest)

/-- Reads the exponent of a number, if it has one. -/
def readExponent : List Char → Option (Int × List Char)
  | c :: rest =>
    if c = 'e' ∨ c = 'E' then
      match rest with
      | '-' :: rest => readPower true rest
      | '+' :: rest => readPower false rest
      | rest => readPower false rest
    else some (0, c :: rest)
  | [] => some (0, [])

/-- Reads a number without its sign. -/
def readMagnitude (negative : Bool) (cs : List Char) : Option (Datum × List Char) := do
  let (whole, rest) ← readWhole cs
  let (fraction, rest) ← readFraction rest
  let (power, rest) ← readExponent rest
  let n : Int := Nat.ofDigitChars 10 (whole ++ fraction) 0
  return (.number (if negative then -n else n) (power - fraction.length), rest)

def readNumber : List Char → Option (Datum × List Char)
  | '-' :: rest => readMagnitude true rest
  | cs => readMagnitude false cs

/-! ## Values -/

mutual

def readValue : Nat → List Char → Option (Datum × List Char)
  | 0, _ => none
  | fuel + 1, cs =>
    match skipSpaces cs with
    | 'n' :: 'u' :: 'l' :: 'l' :: rest => some (.null, rest)
    | 't' :: 'r' :: 'u' :: 'e' :: rest => some (.bool true, rest)
    | 'f' :: 'a' :: 'l' :: 's' :: 'e' :: rest => some (.bool false, rest)
    | '"' :: rest => do
      let (text, rest) ← readText fuel rest
      return (.text (String.ofList text), rest)
    | '[' :: rest =>
      match skipSpaces rest with
      | ']' :: rest => some (.array [], rest)
      | rest => do
        let (elements, rest) ← readElements fuel rest
        return (.array elements, rest)
    | '\x7b' :: rest =>
      match skipSpaces rest with
      | '\x7d' :: rest => some (.object [], rest)
      | rest => do
        let (members, rest) ← readMembers fuel rest
        return (.object members, rest)
    | rest => readNumber rest

/-- Reads the elements of an array, up to the bracket that ends it. -/
def readElements : Nat → List Char → Option (List Datum × List Char)
  | 0, _ => none
  | fuel + 1, cs => do
    let (d, rest) ← readValue fuel cs
    match skipSpaces rest with
    | ',' :: rest => do
      let (more, rest) ← readElements fuel rest
      return (d :: more, rest)
    | ']' :: rest => some ([d], rest)
    | _ => none

/-- Reads the members of an object, up to the brace that ends it. -/
def readMembers : Nat → List Char → Option (List (String × Datum) × List Char)
  | 0, _ => none
  | fuel + 1, cs =>
    match skipSpaces cs with
    | '"' :: rest => do
      let (name, rest) ← readText fuel rest
      match skipSpaces rest with
      | ':' :: rest => do
        let (d, rest) ← readValue fuel rest
        match skipSpaces rest with
        | ',' :: rest => do
          let (more, rest) ← readMembers fuel rest
          return ((String.ofList name, d) :: more, rest)
        | '\x7d' :: rest => some ([(String.ofList name, d)], rest)
        | _ => none
      | _ => none
    | _ => none

end

/-- **Reads a JSON text**: one value, with nothing but blanks around it. -/
def read (text : String) : Option Datum := do
  let (d, rest) ← readValue (2 * text.toList.length + 1) text.toList
  if skipSpaces rest = [] then return d else none

end Json

end Conformance
