import Conformance.Time.Binary64
import Conformance.Text.Blank

set_option autoImplicit false

/-! # Decimal notations

A ratio of natural numbers in decimal notation: with a fixed number of places, or with an exponent
and a fixed number of digits, or in the shorter of the two. The last digit is rounded, ties to even.
-/

namespace Conformance

namespace Decimal

/-- The digits of a number, filled up with zeros in front to a least number of them. -/
def digits (least n : Nat) : List Char :=
  let s := Nat.toDigits 10 n
  List.replicate (least - s.length) '0' ++ s

/-- The ratio `num / den` with so many places behind the point; without places there is a point
only if `point` says so. -/
def fixed (places : Nat) (point : Bool) (num den : Nat) : List Char :=
  let s := digits (places + 1) (roundHalfEven (num * Nat.pow 10 places) den)
  let whole := s.take (s.length - places)
  if places = 0 ∧ ¬ point then whole else whole ++ '.' :: s.drop (s.length - places)

/-- The ratio `num / den` times a power of ten. -/
def scaled (num den : Nat) (power : Int) : Nat × Nat :=
  match power with
  | .ofNat k => (num * Nat.pow 10 k, den)
  | .negSucc k => (num, den * Nat.pow 10 (k + 1))

/-- The exponent of the greatest power of ten that is at most `num / den`, for `0 < num`. -/
def order (num den : Nat) : Int :=
  let guess : Int := (Nat.toDigits 10 num).length - (Nat.toDigits 10 den).length
  let (n, d) := scaled num den (-guess)
  if n < d then guess - 1 else guess

/-- The digits of `num / den`, one more than `places`, and the exponent of the first of them. -/
def significant (places : Nat) (num den : Nat) : Nat × Int :=
  if num = 0 then (0, 0)
  else
    let e := order num den
    let (n, d) := scaled num den (places - e)
    let s := roundHalfEven n d
    if s = Nat.pow 10 (places + 1) then (Nat.pow 10 places, e + 1) else (s, e)

def exponent (e : Int) : List Char := (if e < 0 then '-' else '+') :: digits 2 e.natAbs

/-- The ratio `num / den` with one digit before the point and so many places behind it, and an
exponent behind the given letter. -/
def scientific (letter : Char) (places : Nat) (point : Bool) (num den : Nat) : List Char :=
  let (s, e) := significant places num den
  let s := digits (places + 1) s
  let mantissa := if places = 0 ∧ ¬ point then s else s.take 1 ++ '.' :: s.drop 1
  mantissa ++ letter :: exponent e

/-- A numeral without the zeros at the end of its places, and without a point at its end. -/
def trimZeros (s : List Char) : List Char :=
  if s.contains '.' then dropTail (· = '.') (dropTail (· = '0') s) else s

/-- The ratio `num / den` with so many significant digits: with an exponent if that is very small
or exceeds their number. Zeros at the end are dropped unless `point` keeps them. -/
def general (letter : Char) (count : Nat) (point : Bool) (num den : Nat) : List Char :=
  let count := max count 1
  let (_, e) := significant (count - 1) num den
  let trim (s : List Char) : List Char := if point then s else trimZeros s
  if -4 ≤ e ∧ e < count then trim (fixed ((count - 1 : Int) - e).toNat point num den)
  else
    let s := scientific letter (count - 1) point num den
    let mantissa := s.takeWhile (· ≠ letter)
    trim mantissa ++ s.drop mantissa.length

end Decimal

end Conformance
