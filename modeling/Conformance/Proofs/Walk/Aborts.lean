import Conformance.Proofs.Walk.Outcome
import Conformance.Proofs.Walk.Stopping

set_option autoImplicit false

/-! # What aborts a walk

Whatever comes of a case has a verdict, so that no case aborts the walk that runs it. The errors that are
left are those of listing a directory and those of writing the report (`Walk.Abort`). This holds on every
machine, whatever running a case does to its state, and for every sink.
-/

namespace Conformance

/-- **Machines on which whatever comes of a case concerns that case alone.** -/
def Machine.Attempts {σ : Type} (m : Machine σ) : Prop :=
  ∀ c state, ∃ o : Outcome, o.result = (m.run c state).1

namespace Walk

variable {σ α : Type} {m : Machine σ} {s : Settings}

/-- **The errors that abort a walk.** -/
inductive Abort (m : Machine σ) : Error → Prop
  | listing {dir : Path} {state : σ} {cause : IoError} : m.list dir state = .error cause →
      Abort m (.discovery dir cause)
  /-- Something else than a record cannot be written. -/
  | io (cause : IoError) : Abort m (.io cause)
  /-- A record cannot be written. -/
  | json (cause : IoError) : Abort m (.json cause)

/-- A walk that fails by these errors only. -/
def FailsBy (m : Machine σ) (x : Walk σ α) : Prop :=
  ∀ session e, (x session).1 = .error (.failed e) → Abort m e

def Aborting (m : Machine σ) (reason : Stop) : Prop := ∀ e, reason = .failed e → Abort m e

theorem failsBy_iff {x : Walk σ α} : FailsBy m x ↔ StopsBy (Aborting m) x := by
  constructor
  · rintro h session reason hreason e rfl
    exact h session e hreason
  · intro h session e he
    exact h session _ he e rfl

theorem routine_aborting (m : Machine σ) : Routine (Aborting m) where
  overflow _ _ := nofun
  io cause := by
    rintro e ⟨⟩
    exact .io cause
  json cause := by
    rintro e ⟨⟩
    exact .json cause

/-- **No case aborts a walk**, for what comes of it has a verdict. -/
theorem classifyRun_ne_error (hm : m.Attempts) (c : TestCase) (state : σ)
    (deadline : Duration) (e : Error) : classifyRun (m.run c state).1 deadline ≠ .error e := by
  obtain ⟨o, ho⟩ := hm c state
  rw [← ho, Outcome.classifyRun_result]
  nofun

theorem failsBy_visit (hm : m.Attempts) (s : Settings) (depth : ℕ) (dir : Path) :
    FailsBy m (visit m s depth dir) := by
  rw [failsBy_iff]
  induction depth generalizing dir with
  | zero => exact stopsBy_stop nofun
  | succ depth ih =>
      intro session
      rw [visit_succ]
      split
      · have hcase : ∀ c state e, classifyRun (m.run c state).1 s.timeout = .error e →
            Aborting m (.failed e) :=
          fun c state e he => absurd he (classifyRun_ne_error hm c state s.timeout e)
        exact stopsBy_visitPaths (routine_aborting m) hcase (fun p _ _ _ => ih p) _ session
      · next cause hlist =>
        refine stopsBy_stop ?_ session
        rintro e ⟨⟩
        exact .listing hlist

/-- **A whole run is aborted by a listing or by its report, and by nothing else.** -/
theorem failsBy_runSuites (hm : m.Attempts) (s : Settings) (depth : ℕ) :
    FailsBy m (runSuites m s depth) := by
  rw [failsBy_iff]
  exact stopsBy_runSuites (routine_aborting m) (failsBy_iff.mp (failsBy_visit hm s depth s.root))

end Walk

end Conformance
