import Conformance.Error

set_option autoImplicit false

/-! # Sinks

Where a report goes. A report is a list of `Emission`s: texts to be written, each with the part it
plays, and flushes. A sink takes the bytes in order. It may be full after some number of bytes,
and then refuses every further write that is not empty, and it may fail to flush. The first refusal
ends the step that caused it; what was taken before stays.
-/

namespace Conformance

/-- The part that a text plays in a report. A record that cannot be written is another error than
anything else that cannot. -/
inductive Part where
  /-- A serialised record, without the newline that ends it. -/
  | record
  | plain
  deriving DecidableEq, Repr

/-- The error that a refused write becomes. -/
def Part.refusal : Part → IoError → Error
  | .record, cause => .json cause
  | .plain, cause => .io cause

inductive Emission where
  | write (part : Part) (text : String)
  | flush
  deriving DecidableEq, Repr

/-- A sink and what it holds. -/
structure Sink where
  /-- The number of bytes it takes in all, if there is a limit. -/
  capacity : Option Nat
  /-- Whether every flush fails. -/
  flushFails : Bool
  held : Bytes
  deriving DecidableEq, Repr

namespace Sink

def unlimited : Sink := ⟨none, false, []⟩

def empty (capacity : Option Nat) (flushFails : Bool) : Sink := ⟨capacity, flushFails, []⟩

def full : IoError := .other "sink full"

def flushFailed : IoError := .other "flush failed"

/-- The bytes of `bytes` for which there is room. -/
def fitting (s : Sink) (bytes : Bytes) : Bytes :=
  match s.capacity with
  | none => bytes
  | some n => bytes.take (n - s.held.length)

/-- Takes as many of the bytes as there is room for, and says whether these were all. -/
def push (s : Sink) (bytes : Bytes) : Except IoError Unit × Sink :=
  let taken := s.fitting bytes
  let s' := { s with held := s.held ++ taken }
  if taken.length = bytes.length then (.ok (), s') else (.error full, s')

/-- Does one thing that a reporter asks for. -/
def perform (s : Sink) : Emission → Except Error Unit × Sink
  | .write part text =>
    let (result, s') := s.push (Utf8.encode text)
    (result.mapError part.refusal, s')
  | .flush => (if s.flushFails then .error (.io flushFailed) else .ok (), s)

/-- Does what a reporter asks for, up to the first refusal. -/
def performAll (s : Sink) : List Emission → Except Error Unit × Sink
  | [] => (.ok (), s)
  | e :: rest =>
    match s.perform e with
    | (.ok _, s') => s'.performAll rest
    | (.error error, s') => (.error error, s')

end Sink

end Conformance
