set_option autoImplicit false

/-! # Durations

A duration is a 64-bit number of seconds and a number of nanoseconds below a second. It is shown
in the largest unit with a nonzero integer part, exactly, and without trailing zeros.
-/

namespace Conformance

abbrev nanosPerSecond : Nat := 1000000000

structure Duration where
  seconds : UInt64
  nanos : Fin nanosPerSecond
  deriving DecidableEq, Repr

namespace Duration

def zero : Duration := ⟨0, 0⟩

def ofSeconds (seconds : UInt64) : Duration := ⟨seconds, 0⟩

def toNanos (d : Duration) : Nat := d.seconds.toNat * nanosPerSecond + d.nanos

/-- The duration of that many nanoseconds, if its seconds fit a word. -/
def ofNanos? (n : Nat) : Option Duration :=
  if n / nanosPerSecond < UInt64.size then
    some ⟨(n / nanosPerSecond).toUInt64, ⟨n % nanosPerSecond, Nat.mod_lt _ (by decide)⟩⟩
  else none

def isZero (d : Duration) : Bool := d = zero

/-! ## Text -/

def digit (n : Nat) : Char := Char.ofNat (48 + n % 10)

/-- The digits of the fraction `part / Nat.pow 10 places`, up to the last one that is not zero. -/
def fractionDigits : Nat → Nat → List Char
  | 0, _ => []
  | places + 1, part =>
    if part = 0 then []
    else digit (part / Nat.pow 10 places) :: fractionDigits places (part % Nat.pow 10 places)

/-- The number `whole + part / Nat.pow 10 places`; a point is written only before a digit. -/
def decimal (whole part places : Nat) : String :=
  let digits := fractionDigits places part
  toString whole ++ (if digits = [] then "" else "." ++ String.ofList digits)

/-- The duration in seconds, milliseconds, microseconds or nanoseconds, whichever is the largest
unit that it holds at least one of. -/
def text (d : Duration) : String :=
  let n : Nat := d.nanos
  if 0 < d.seconds then decimal d.seconds.toNat n 9 ++ "s"
  else if 1000000 ≤ n then decimal (n / 1000000) (n % 1000000) 6 ++ "ms"
  else if 1000 ≤ n then decimal (n / 1000) (n % 1000) 3 ++ "µs"
  else decimal n 0 0 ++ "ns"

end Duration

end Conformance
