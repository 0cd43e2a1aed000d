import Conformance.Time.Duration
import Conformance.Time.Numeral

set_option autoImplicit false

/-! # Binary floating point

A number of seconds passes through the 64-bit binary format on its way to nanoseconds: the numeral
is rounded to the nearest number of that format, and that number's exact value is rounded to the
nearest nanosecond. Both roundings take the even neighbour in a tie. Everything is exact
arithmetic on natural numbers.
-/

namespace Conformance

/-- The whole number nearest to `num / den`, in a tie the even one. -/
def roundHalfEven (num den : Nat) : Nat :=
  let quotient := num / den
  let rest := num % den
  if 2 * rest < den then quotient
  else if den < 2 * rest then quotient + 1
  else quotient + quotient % 2

/-- A number of the 64-bit binary format. -/
inductive Binary64 where
  | nan
  | infinite (negative : Bool)
  /-- The number `significand * 2 ^ exponent`, or its opposite; zero too has a sign. -/
  | finite (negative : Bool) (significand : Nat) (exponent : Int)
  deriving DecidableEq, Repr

namespace Binary64

/-- The ratio `num / den` as the pair `(n, d)` with `n / d = num / den / 2 ^ e`. -/
def scaled (num den : Nat) (e : Int) : Nat × Nat :=
  match e with
  | .ofNat k => (num, den * Nat.pow 2 k)
  | .negSucc k => (num * Nat.pow 2 (k + 1), den)

/-- The exponent of the greatest power of two that is at most `num / den`, for `0 < num`. -/
def binaryOrder (num den : Nat) : Int :=
  let guess : Int := (num.log2 : Int) - den.log2
  let (n, d) := scaled num den guess
  if n < d then guess - 1 else guess

/-- The exponent of the last binary place kept for a number near `num / den`: a significand has 53
binary places, and no place lies below `2 ^ -1074`. -/
def lastPlace (num den : Nat) : Int := max (binaryOrder num den - 52) (-1074)

/-- The number of the format nearest to `num / den`, ties to even; infinite from
`2 ^ 1024` on, after rounding. -/
def nearest (negative : Bool) (num den : Nat) : Binary64 :=
  if num = 0 then .finite negative 0 0
  else
    let e := lastPlace num den
    let (n, d) := scaled num den e
    let significand := roundHalfEven n d
    if 971 < e ∨ (e = 971 ∧ Nat.pow 2 53 ≤ significand) then .infinite negative
    else .finite negative significand e

/-- The number of the format nearest to a numeral. A decimal that is far out of range is not
computed: from `10 ^ 310` on it is infinite, below `10 ^ -326` it rounds to zero. -/
def ofNumeral : Numeral → Binary64
  | .nan => .nan
  | .infinity negative => .infinite negative
  | .decimal negative coefficient exponent =>
    if coefficient = 0 then .finite negative 0 0
    else
      let places : Int := (Nat.toDigits 10 coefficient).length
      if 310 < places + exponent then .infinite negative
      else if places + exponent < -326 then .finite negative 0 0
      else match exponent with
        | .ofNat k => nearest negative (coefficient * Nat.pow 10 k) 1
        | .negSucc k => nearest negative coefficient (Nat.pow 10 (k + 1))

/-- The nanoseconds nearest to `significand * 2 ^ exponent` seconds, ties to even. -/
def nanosOfSeconds (significand : Nat) : Int → Nat
  | .ofNat k => significand * Nat.pow 2 k * nanosPerSecond
  | .negSucc k => roundHalfEven (significand * nanosPerSecond) (Nat.pow 2 (k + 1))

end Binary64

/-- The duration nearest to a nonnegative number of seconds, if the seconds fit a word. -/
def Duration.ofSeconds? (significand : Nat) (exponent : Int) : Option Duration :=
  Duration.ofNanos? (Binary64.nanosOfSeconds significand exponent)

end Conformance
