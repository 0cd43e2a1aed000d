import Conformance.Time.Binary64

set_option autoImplicit false

/-! # Timeouts

The time a test may take, as it is given on the command line: a positive number of seconds.
-/

namespace Conformance

inductive TimeoutError where
  | notANumber (given : String)
  /-- It is a numeral for no finite positive number. -/
  | notPositive (given : String)
  /-- Its seconds do not fit a word. -/
  | tooLong
  deriving DecidableEq, Repr

def TimeoutError.message : TimeoutError → String
  | .notANumber given => "'" ++ given ++ "' is not a number of seconds"
  | .notPositive given => "timeout must be a positive number of seconds, got '" ++ given ++ "'"
  | .tooLong => "cannot convert float seconds to Duration: value is either too big or NaN"

/-- Reads a positive number of seconds, which may have a fraction. -/
def parseTimeout (given : String) : Except TimeoutError Duration :=
  match Numeral.parse? given with
  | none => .error (.notANumber given)
  | some numeral =>
    match Binary64.ofNumeral numeral with
    | .finite false significand exponent =>
      if significand = 0 then .error (.notPositive given)
      else match Duration.ofSeconds? significand exponent with
        | some d => .ok d
        | none => .error .tooLong
    | _ => .error (.notPositive given)

end Conformance
