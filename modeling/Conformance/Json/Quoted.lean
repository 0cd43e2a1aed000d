set_option autoImplicit false

/-! # Quoted text

A text as a JSON string. The quote, the backslash and the control characters below U+0020 are
escaped, five of the latter by a letter and the others by their code; every other character stands
for itself.
-/

namespace Conformance

namespace Json

def hexDigit (n : Nat) : Char := if n < 10 then Char.ofNat (48 + n) else Char.ofNat (87 + n)

/-- A control character by its code. -/
def escapeByCode (c : Char) : List Char :=
  ['\\', 'u', '0', '0', hexDigit (c.toNat / 16), hexDigit (c.toNat % 16)]

/-- A character inside quotes. -/
def escape (c : Char) : List Char :=
  if c = '"' then ['\\', '"']
  else if c = '\\' then ['\\', '\\']
  else if c = '\x08' then ['\\', 'b']
  else if c = '\x0c' then ['\\', 'f']
  else if c = '\n' then ['\\', 'n']
  else if c = '\r' then ['\\', 'r']
  else if c = '\t' then ['\\', 't']
  else if c.toNat < 0x20 then escapeByCode c
  else [c]

def quote (text : String) : List Char := '"' :: text.toList.flatMap escape ++ ['"']

end Json

end Conformance
