set_option autoImplicit false

/-! # Totals of a run

How many cases were run and how many passed. The counters are 64-bit words and a sum that does not
fit is refused: every operation that may leave the range says so in its type.
-/

namespace Conformance

/-- An arithmetic result that does not fit its word. -/
inductive Overflow where
  | add
  | subtract
  deriving DecidableEq, Repr

def Overflow.message : Overflow → String
  | .add => "attempt to add with overflow"
  | .subtract => "attempt to subtract with overflow"

def checkedAdd (a b : UInt64) : Except Overflow UInt64 :=
  if a.toNat + b.toNat < UInt64.size then .ok (a + b) else .error .add

def checkedSub (a b : UInt64) : Except Overflow UInt64 :=
  if b ≤ a then .ok (a - b) else .error .subtract

/-- The number of cases run and of cases passed below some directory. -/
structure Totals where
  total : UInt64
  passed : UInt64
  deriving DecidableEq, Repr

namespace Totals

def zero : Totals := ⟨0, 0⟩

def record (t : Totals) (passed : Bool) : Except Overflow Totals := do
  let total ← checkedAdd t.total 1
  let passed ← if passed then checkedAdd t.passed 1 else pure t.passed
  return ⟨total, passed⟩

/-- Counts the cases of another directory as well. -/
def add (t other : Totals) : Except Overflow Totals := do
  let total ← checkedAdd t.total other.total
  let passed ← checkedAdd t.passed other.passed
  return ⟨total, passed⟩

def failed (t : Totals) : Except Overflow UInt64 := checkedSub t.total t.passed

/-- Nothing failed, which holds of an empty run too. -/
def allPassed (t : Totals) : Bool := t.passed = t.total

/-- The exit status that tells whether something failed. -/
def exitCode (t : Totals) : Nat := if t.allPassed then 0 else 1

end Totals

end Conformance
