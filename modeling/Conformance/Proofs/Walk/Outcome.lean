import Conformance.Proofs.Walk.Transcript

set_option autoImplicit false

/-! # Outcomes of cases

What comes of running a case is an execution or one of the errors that concern the case alone.
Every outcome has a verdict (`classifyRun_result`), so that running a case never stops a walk: it
plays the `[Test]` part of the report, the run and the rest of the report (`plays_runCase`).
-/

namespace Conformance

/-- Why a single case could not be run to its end. -/
inductive CaseError where
  | spawn (program : Path) (cause : IoError)
  | unreadable (script : Path) (cause : IoError)
  | lost (cause : IoError)
  deriving DecidableEq, Repr

def CaseError.toError : CaseError → Error
  | .spawn program cause => .spawn program cause
  | .unreadable script cause => .unreadable script cause
  | .lost cause => .lost cause

/-- The failure that the error makes of its case. -/
def CaseError.failure : CaseError → Failure
  | .spawn program cause => .spawnFailed (Error.spawn program cause).message
  | .unreadable script cause => .unreadable (Error.unreadable script cause).message
  | .lost cause => .interrupted (Error.lost cause).message

abbrev Outcome := Except CaseError Execution

namespace Outcome

def result (o : Outcome) : Except Error Execution := o.mapError CaseError.toError

def verdict (o : Outcome) (deadline : Duration) : Verdict :=
  match o with
  | .ok execution => classify execution deadline
  | .error e => .failed e.failure

/-- Whether the case ended by itself and with exit code zero. -/
def passes (o : Outcome) : Bool :=
  match o with
  | .ok execution => execution.completion = .exited 0
  | .error _ => false

/-- **Every outcome has a verdict.** -/
theorem classifyRun_result (o : Outcome) (deadline : Duration) :
    classifyRun o.result deadline = .ok (o.verdict deadline) := by
  cases o with
  | ok execution => rfl
  | error e => cases e <;> rfl

/-- A case passes if and only if it ended by itself and with exit code zero. -/
theorem isPass_verdict (o : Outcome) (deadline : Duration) :
    (o.verdict deadline).isPass = o.passes := by
  cases o with
  | error e => rfl
  | ok execution =>
      rcases execution with ⟨completion, stdout, stderr⟩
      cases completion with
      | exited code =>
          by_cases h : code = 0 <;> simp [verdict, classify, passes, Verdict.isPass, h]
      | signaled signal => rfl
      | timedOut => rfl

end Outcome

/-! ## Running a case -/

/-- The machine with the files of a view on which each case has the given outcome. -/
def View.machineOf (v : View) (outcome : TestCase → Outcome) : Machine (List TestCase) :=
  v.machine fun c => (outcome c).result

def Settings.verdict (s : Settings) (outcome : TestCase → Outcome) (c : TestCase) : Verdict :=
  (outcome c).verdict s.timeout

/-- What is done for one case: it is announced, run and reported. -/
def Settings.caseActs (s : Settings) (outcome : TestCase → Outcome) (c : TestCase) : List Act :=
  ((Reporter.ofSettings s).started c).map .emit ++
    .run c :: ((Reporter.ofSettings s).finished c (s.verdict outcome c)).map .emit

namespace Walk

/-- **Running a case plays its acts**, whatever its outcome is. -/
theorem plays_runCase (v : View) (s : Settings) (outcome : TestCase → Outcome) (c : TestCase) :
    Plays (runCase (v.machineOf outcome) s c) (s.caseActs outcome c) (.ok (outcome c).passes) := by
  have hverdict : Plays (orStop .failed (classifyRun (outcome c).result s.timeout)) []
      (.ok (s.verdict outcome c)) := by
    rw [Outcome.classifyRun_result]
    exact .pure _
  have hend : Plays (Pure.pure (s.verdict outcome c).isPass : Walk (List TestCase) Bool) []
      (.ok (outcome c).passes) := by
    rw [Settings.verdict, Outcome.isPass_verdict]
    exact .pure _
  unfold runCase
  refine .of_eq (.bind (.report _) (.bind (.attempt v _ c) (.bind hverdict
    (.bind (.report _) hend)))) ?_
  simp [Settings.caseActs]

end Walk

end Conformance
