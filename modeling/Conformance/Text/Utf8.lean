set_option autoImplicit false

/-! # UTF-8

Text as bytes and bytes as text. `Utf8.encode` is the ordinary encoding. `Utf8.decode` accepts
every byte string: what is not well formed is replaced, one U+FFFD for each maximal prefix of an
ill-formed sequence. `Utf8.decode?` accepts well-formed bytes only.

The decoder is a small automaton that takes one byte at a time. Between two characters it is in
`State.boundary`; inside a sequence it knows how many continuation bytes are still missing and the
range of the next one. A byte outside that range ends the sequence with one replacement and is
then read again as the first byte of a new one.
-/

namespace Conformance

/-- A string of bytes: a path, an argument, a captured stream. -/
abbrev Bytes := List UInt8

namespace Utf8

def encode (text : String) : Bytes := text.toList.flatMap String.utf8EncodeChar

def replacement : Char := '\uFFFD'

/-- Where the decoder stands. -/
inductive State where
  | boundary
  /-- Inside a sequence that needs `after` bytes beyond the next one; the next one must lie
  between `low` and `high`; `value` is what the bytes so far have contributed. -/
  | inside (after : Nat) (low high : UInt8) (value : Nat)
  deriving DecidableEq, Repr

/-- Reads the first byte of a sequence. The second byte of a sequence has a narrower range after
`E0`, `ED`, `F0` and `F4`, which rules out overlong forms, surrogates and values above U+10FFFF. -/
def lead (b : UInt8) : List Char × State :=
  let n := b.toNat
  if b < 0x80 then ([Char.ofNat n], .boundary)
  else if b < 0xC2 then ([replacement], .boundary)
  else if b < 0xE0 then ([], .inside 0 0x80 0xBF (n - 0xC0))
  else if b = 0xE0 then ([], .inside 1 0xA0 0xBF 0)
  else if b = 0xED then ([], .inside 1 0x80 0x9F 13)
  else if b < 0xF0 then ([], .inside 1 0x80 0xBF (n - 0xE0))
  else if b = 0xF0 then ([], .inside 2 0x90 0xBF 0)
  else if b < 0xF4 then ([], .inside 2 0x80 0xBF (n - 0xF0))
  else if b = 0xF4 then ([], .inside 2 0x80 0x8F 4)
  else ([replacement], .boundary)

/-- Reads one byte: the characters it completes and the state after it. -/
def step : State → UInt8 → List Char × State
  | .boundary, b => lead b
  | .inside after low high value, b =>
    if low ≤ b ∧ b ≤ high then
      let value := value * 64 + (b.toNat - 0x80)
      match after with
      | 0 => ([Char.ofNat value], .boundary)
      | after + 1 => ([], .inside after 0x80 0xBF value)
    else
      let (chars, state) := lead b
      (replacement :: chars, state)

/-- What is still to be written when the bytes end. -/
def finish : State → List Char
  | .boundary => []
  | .inside _ _ _ _ => [replacement]

/-- The characters read from `bytes`, starting in the given state. -/
def decodeFrom : State → Bytes → List Char
  | state, [] => finish state
  | state, b :: rest =>
    let (chars, state) := step state b
    chars ++ decodeFrom state rest

/-- The text of arbitrary bytes, with U+FFFD for what is not well formed. -/
def decode (bytes : Bytes) : String := String.ofList (decodeFrom .boundary bytes)

/-- The text of well-formed bytes: those that decoding and encoding again gives back. -/
def decode? (bytes : Bytes) : Option String :=
  let text := decode bytes
  if encode text = bytes then some text else none

end Utf8

end Conformance
