import Conformance.Case
import Conformance.Json.Record
import Conformance.Report.Sink
import Conformance.Settings
import Conformance.Text.Blank
import Conformance.Totals
import Conformance.Verdict

set_option autoImplicit false

/-! # Reporters

What is written when a case starts, when it has finished and when the run is over, in either
format. A reporter only says what is to be written (`Emission`); a sink takes it.

In text format a case has a `[Test]` line and then a `[Passed]` or an `[Error]` line, below which
the output of the process is shown. In JSON format a case is one record, written when it has
finished. Every step that writes anything ends with a flush.
-/

namespace Conformance

/-- How a report looks. -/
structure Reporter where
  /-- Whether tags are written in colour. -/
  color : Bool
  format : Format
  deriving DecidableEq, Repr

namespace Reporter

/-- The reporter for a format; only text is ever coloured. -/
def make (color : Bool) (format : Format) : Reporter := ⟨color && format = .text, format⟩

def ofSettings (s : Settings) : Reporter := make s.color s.format

/-! ## Text -/

inductive Color where
  | red
  | green
  | blue
  deriving DecidableEq, Repr

def Color.code : Color → String
  | .red => "31"
  | .green => "32"
  | .blue => "34"

/-- A tag in brackets, in colour if the reporter has colours. -/
def tag (r : Reporter) (label : String) (color : Color) : String :=
  let plain := "[" ++ label ++ "]"
  if r.color then "\x1b[" ++ color.code ++ "m" ++ plain ++ "\x1b[0m" else plain

def line (text : String) : Emission := .write .plain (text ++ "\n")

def startedLine (r : Reporter) (c : TestCase) : String :=
  r.tag "Test" .blue ++ " Testing " ++ c.suite ++ " -> " ++ c.displayName

/-- The output that is shown below a failure: each stream that is not empty, with exactly one
newline at its end. -/
def shownOutput (failure : Failure) : List Emission :=
  match failure.output with
  | none => []
  | some (stdout, stderr) =>
    ([stdout, stderr].filter (· ≠ "")).map fun stream => line (trimLineEnds stream)

/-- The lines for a verdict. -/
def verdictLines (r : Reporter) : Verdict → List Emission
  | .passed => [line (r.tag "Passed" .green)]
  | .failed failure =>
    line (r.tag "Error" .red ++ " " ++ failure.message) :: shownOutput failure

/-- The lines that end a report. -/
def summaryLines (r : Reporter) (t : Totals) : List Emission :=
  (if 0 < t.total then [line ""] else []) ++
    [line <|
      if t.allPassed then r.tag "Success" .green ++ " All tests passed!"
      else r.tag "Failure" .red ++ " " ++ toString t.passed.toNat ++ " of "
        ++ toString t.total.toNat ++ " tests passed"]

/-! ## JSON -/

/-- A field for a stream, unless it is empty. -/
def streamField (name : String) (stream : String) : Json.Record :=
  if stream = "" then [] else [(name, .text stream)]

def failureFields (failure : Failure) : Json.Record :=
  [("failure", .text failure.kind), ("message", .text failure.message)] ++
    match failure.output with
    | none => []
    | some (stdout, stderr) => streamField "stdout" stdout ++ streamField "stderr" stderr

def caseRecord (c : TestCase) (v : Verdict) : Json.Record :=
  [("suite", .text c.suite), ("name", .text c.displayName), ("path", .text c.path.text),
   ("status", .text (if v.isPass then "passed" else "failed"))] ++
    match v with
    | .passed => []
    | .failed failure => failureFields failure

def summaryRecord (t : Totals) (failed : UInt64) : Json.Record :=
  [("total", .number t.total.toNat), ("passed", .number t.passed.toNat),
   ("failed", .number failed.toNat), ("success", .bool t.allPassed)]

/-- A record on a line of its own. -/
def recordLine (record : Json.Record) : List Emission :=
  [.write .record record.render, line ""]

/-! ## Steps -/

/-- What is written when a case starts. In JSON format this is nothing, and nothing is flushed. -/
def started (r : Reporter) (c : TestCase) : List Emission :=
  match r.format with
  | .text => [line (r.startedLine c), .flush]
  | .json => []

def finished (r : Reporter) (c : TestCase) (v : Verdict) : List Emission :=
  match r.format with
  | .text => r.verdictLines v ++ [.flush]
  | .json => recordLine (caseRecord c v) ++ [.flush]

/-- What is written when the run is over. In JSON format the failures are counted first, and totals
with more passes than cases have no such count. -/
def summary (r : Reporter) (t : Totals) : Except Overflow (List Emission) :=
  match r.format with
  | .text => .ok (r.summaryLines t ++ [.flush])
  | .json => t.failed.map fun failed => recordLine (summaryRecord t failed) ++ [.flush]

end Reporter

end Conformance
