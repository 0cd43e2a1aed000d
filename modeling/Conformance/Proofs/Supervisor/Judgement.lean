import Mathlib
import Conformance.Proofs.Supervisor.Behaviour
import Conformance.Proofs.Walk.Outcome
import Conformance.Runner

set_option autoImplicit false

/-! # The verdict on a case

Many things can go wrong at once while a case is run: the script cannot be opened and neither can the
interpreter be launched, the process is lost and its deadline passes. `Behaviour.Judged` says which of
them is told, in one order for every system, and `Behaviour.Judges` is the verdict on what a run of the
case comes to. They are the same (`Behaviour.judges_iff_judged`), and there is always exactly one verdict
(`Behaviour.existsUnique_judges`).
-/

namespace Conformance

/-! ## The three steps -/

namespace Runner

variable {σ π : Type} {interpreter script : Path} {refusal? : σ → Option IoError}
  {launch : σ → Except IoError (π × σ)} {follow : π → σ → Except Error Execution × σ} {w w' : σ}

theorem run_of_refused {cause : IoError} (h : refusal? w = some cause) :
    run interpreter script refusal? launch follow w = (.error (.unreadable script cause), w) := by
  rw [run, h]

theorem run_of_not_launched {cause : IoError} (h : refusal? w = none)
    (hlaunch : launch w = .error cause) :
    run interpreter script refusal? launch follow w = (.error (.spawn interpreter cause), w) := by
  rw [run, h]
  show execute interpreter launch follow w = _
  rw [execute, hlaunch]

theorem run_of_launched {process : π} (h : refusal? w = none)
    (hlaunch : launch w = .ok (process, w')) :
    run interpreter script refusal? launch follow w = follow process w' := by
  rw [run, h]
  show execute interpreter launch follow w = _
  rw [execute, hlaunch]

end Runner

/-! ## The order of judgement -/

namespace Behaviour

variable (b : Behaviour) (interpreter script : Path) (deadline : Duration)

/-- Launches an interpreter on a script; the state is what has been spawned so far. -/
def spawn (spawned : List (Path × Path)) : Except IoError (Unit × List (Path × Path)) :=
  match b.launching with
  | some cause => .error cause
  | none => .ok ((), spawned ++ [(interpreter, script)])

/-- Runs a case on the system, when the supervision comes to `r`. -/
def attempt (r : Except Error Execution) : Except Error Execution × List (Path × Path) :=
  Runner.run interpreter script (fun _ => b.opening) (b.spawn interpreter script)
    (fun _ spawned => (r, spawned)) []

/-- **A run of a case on the system**, with what it has spawned and the result. -/
def Runs (spawned : List (Path × Path)) (result : Except Error Execution) : Prop :=
  ∃ n r, (b.after n).result? = some r ∧ b.attempt interpreter script r = (result, spawned)

/-- **The verdict on a run of the case.** -/
def Judges (spawned : List (Path × Path)) (v : Verdict) : Prop :=
  ∃ result, b.Runs interpreter script spawned result ∧ classifyRun result deadline = .ok v

/-- **The order in which a case is judged.** What comes first settles the verdict, whatever else goes
wrong. -/
inductive Judged : List (Path × Path) → Verdict → Prop
  /-- Nothing is spawned if the script cannot be opened. -/
  | unreadable {cause : IoError} : b.opening = some cause →
      Judged [] (.failed (.unreadable
        ("Failed to open file '" ++ script.text ++ "': " ++ cause.message)))
  | spawnFailed {cause : IoError} : b.opening = none → b.launching = some cause →
      Judged [] (.failed (.spawnFailed
        ("Failed to launch interpreter '" ++ interpreter.text ++ "': " ++ cause.message)))
  | interrupted {n : ℕ} {cause : IoError} : b.opening = none → b.launching = none →
      b.WonBy n → b.events n = .lost cause →
      Judged [(interpreter, script)] (.failed (.interrupted
        ("Lost contact with test process: " ++ cause.message)))
  /-- The time that is told is the deadline, and there is no output. -/
  | timedOut {n : ℕ} : b.opening = none → b.launching = none →
      b.WonBy n → b.events n = .deadline →
      Judged [(interpreter, script)] (.failed (.timedOut deadline))
  | signaled {n : ℕ} {signal : ℤ} {out err : Bytes} : b.opening = none → b.launching = none →
      b.WonBy n → b.events n = .ended (.signaled signal) → b.Collected n out err →
      Judged [(interpreter, script)]
        (.failed (.signaled signal (Utf8.decode out) (Utf8.decode err)))
  | nonZeroExit {n : ℕ} {code : ℤ} {out err : Bytes} : b.opening = none → b.launching = none →
      b.WonBy n → b.events n = .ended (.exited code) → code ≠ 0 → b.Collected n out err →
      Judged [(interpreter, script)]
        (.failed (.nonZeroExit code (Utf8.decode out) (Utf8.decode err)))
  | passed {n : ℕ} : b.opening = none → b.launching = none →
      b.WonBy n → b.events n = .ended (.exited 0) → Judged [(interpreter, script)] .passed

variable {b interpreter script deadline}
variable {spawned spawned' : List (Path × Path)} {result result' : Except Error Execution}
  {v v' : Verdict}

/-! ## Runs -/

/-- A run that ends before the supervision does not depend on it. -/
theorem runs_of_attempt {r : Except Error Execution} {s : List (Path × Path)}
    (h : ∀ r', b.attempt interpreter script r' = (r, s)) :
    b.Runs interpreter script spawned result ↔ spawned = s ∧ result = r := by
  obtain ⟨n, r', hr'⟩ := b.exists_result
  constructor
  · rintro ⟨-, r'', -, hrun⟩
    cases (h r'').symm.trans hrun
    exact ⟨rfl, rfl⟩
  · rintro ⟨rfl, rfl⟩
    exact ⟨n, r', hr', h r'⟩

theorem runs_of_opening {cause : IoError} (h : b.opening = some cause) :
    b.Runs interpreter script spawned result ↔
      spawned = [] ∧ result = .error (.unreadable script cause) :=
  runs_of_attempt fun _ => Runner.run_of_refused h

theorem runs_of_launching {cause : IoError} (hopening : b.opening = none)
    (h : b.launching = some cause) : b.Runs interpreter script spawned result ↔
      spawned = [] ∧ result = .error (.spawn interpreter cause) := by
  have hspawn : b.spawn interpreter script [] = .error cause := by rw [spawn, h]
  exact runs_of_attempt fun _ => Runner.run_of_not_launched hopening hspawn

theorem runs_of_launched (hopening : b.opening = none) (hlaunching : b.launching = none) :
    b.Runs interpreter script spawned result ↔
      spawned = [(interpreter, script)] ∧ ∃ n, (b.after n).result? = some result := by
  have hspawn : b.spawn interpreter script [] = .ok ((), [(interpreter, script)]) := by
    rw [spawn, hlaunching]
    rfl
  have hattempt : ∀ r, b.attempt interpreter script r = (r, [(interpreter, script)]) :=
    fun r => Runner.run_of_launched hopening hspawn
  constructor
  · rintro ⟨n, r, hr, hrun⟩
    cases (hattempt r).symm.trans hrun
    exact ⟨rfl, n, hr⟩
  · rintro ⟨rfl, n, hr⟩
    exact ⟨n, result, hr, hattempt result⟩

theorem exists_runs (b : Behaviour) (interpreter script : Path) :
    ∃ spawned result, b.Runs interpreter script spawned result := by
  cases hopening : b.opening with
  | some cause => exact ⟨_, _, (runs_of_opening hopening).mpr ⟨rfl, rfl⟩⟩
  | none =>
      cases hlaunching : b.launching with
      | some cause => exact ⟨_, _, (runs_of_launching hopening hlaunching).mpr ⟨rfl, rfl⟩⟩
      | none =>
          obtain ⟨n, result, hresult⟩ := b.exists_result
          exact ⟨_, _, (runs_of_launched hopening hlaunching).mpr ⟨rfl, n, hresult⟩⟩

/-- **A case has one run.** -/
theorem Runs.unique (h : b.Runs interpreter script spawned result)
    (h' : b.Runs interpreter script spawned' result') : spawned = spawned' ∧ result = result' := by
  obtain ⟨n, r, hr, hrun⟩ := h
  obtain ⟨n', r', hr', hrun'⟩ := h'
  obtain rfl := result_unique hr hr'
  rw [hrun] at hrun'
  cases hrun'
  exact ⟨rfl, rfl⟩

/-- A supervision comes to an execution, or the process is lost. -/
theorem exists_outcome_of_result? {s : Supervisor} (h : s.result? = some result) :
    ∃ o : Outcome, o.result = result := by
  cases hphase : s.phase with
  | finished x =>
      simp only [Supervisor.result?, hphase, Option.some.injEq] at h
      exact ⟨.ok x, h⟩
  | failed cause =>
      simp only [Supervisor.result?, hphase, Option.some.injEq] at h
      exact ⟨.error (.lost cause), h⟩
  | _ => simp [Supervisor.result?, hphase] at h

/-- **What a run can come to** concerns the case alone. -/
theorem Runs.exists_outcome (h : b.Runs interpreter script spawned result) :
    ∃ o : Outcome, o.result = result := by
  cases hopening : b.opening with
  | some cause =>
      obtain ⟨-, rfl⟩ := (runs_of_opening hopening).mp h
      exact ⟨.error (.unreadable script cause), rfl⟩
  | none =>
    cases hlaunching : b.launching with
    | some cause =>
        obtain ⟨-, rfl⟩ := (runs_of_launching hopening hlaunching).mp h
        exact ⟨.error (.spawn interpreter cause), rfl⟩
    | none =>
        obtain ⟨-, n, hresult⟩ := (runs_of_launched hopening hlaunching).mp h
        exact exists_outcome_of_result? hresult

/-! ## Verdicts -/

/-- **Every case has exactly one verdict.** -/
theorem existsUnique_judges (b : Behaviour) (interpreter script : Path) (deadline : Duration) :
    ∃! p : List (Path × Path) × Verdict, b.Judges interpreter script deadline p.1 p.2 := by
  obtain ⟨spawned, result, hruns⟩ := b.exists_runs interpreter script
  obtain ⟨o, rfl⟩ := hruns.exists_outcome
  refine ⟨(spawned, o.verdict deadline), ⟨_, hruns, o.classifyRun_result deadline⟩, ?_⟩
  rintro ⟨spawned', v⟩ ⟨result', hruns', hv⟩
  obtain ⟨rfl, rfl⟩ := hruns.unique hruns'
  rw [Outcome.classifyRun_result] at hv
  cases hv
  rfl

/-- **A verdict is what comes first.** -/
theorem Judged.judges (h : b.Judged interpreter script deadline spawned v) :
    b.Judges interpreter script deadline spawned v := by
  obtain ⟨m, result, hresult⟩ := b.exists_result
  cases h with
  | unreadable hopening => exact ⟨_, (runs_of_opening hopening).mpr ⟨rfl, rfl⟩, rfl⟩
  | spawnFailed hopening hlaunching =>
      exact ⟨_, (runs_of_launching hopening hlaunching).mpr ⟨rfl, rfl⟩, rfl⟩
  | interrupted hopening hlaunching hwon hevent =>
      have hlost := hwon.result_of_lost hevent
      exact ⟨_, (runs_of_launched hopening hlaunching).mpr ⟨rfl, _, hlost⟩, rfl⟩
  | timedOut hopening hlaunching hwon hevent =>
      obtain ⟨x, rfl, hx⟩ := hwon.result_of_deadline hevent hresult
      refine ⟨_, (runs_of_launched hopening hlaunching).mpr ⟨rfl, _, hresult⟩, ?_⟩
      simp only [classifyRun, classify, hx]
  | signaled hopening hlaunching hwon hevent hcollected =>
      obtain ⟨out, err, rfl, hcollected'⟩ := hwon.result_of_ended hevent hresult
      obtain ⟨rfl, rfl⟩ := hcollected.unique hcollected'
      exact ⟨_, (runs_of_launched hopening hlaunching).mpr ⟨rfl, _, hresult⟩, rfl⟩
  | nonZeroExit hopening hlaunching hwon hevent hcode hcollected =>
      obtain ⟨out, err, rfl, hcollected'⟩ := hwon.result_of_ended hevent hresult
      obtain ⟨rfl, rfl⟩ := hcollected.unique hcollected'
      refine ⟨_, (runs_of_launched hopening hlaunching).mpr ⟨rfl, _, hresult⟩, ?_⟩
      simp only [classifyRun, classify, Ending.completion, if_neg hcode]
  | passed hopening hlaunching hwon hevent =>
      obtain ⟨out, err, rfl, -⟩ := hwon.result_of_ended hevent hresult
      exact ⟨_, (runs_of_launched hopening hlaunching).mpr ⟨rfl, _, hresult⟩, rfl⟩

/-- **Something comes first.** -/
theorem exists_judged (b : Behaviour) (interpreter script : Path) (deadline : Duration) :
    ∃ spawned v, b.Judged interpreter script deadline spawned v := by
  cases hopening : b.opening with
  | some cause => exact ⟨_, _, .unreadable hopening⟩
  | none =>
    cases hlaunching : b.launching with
    | some cause => exact ⟨_, _, .spawnFailed hopening hlaunching⟩
    | none =>
      obtain ⟨n, hwon⟩ := b.exists_wonBy
      have hdecides := hwon.decides
      cases hevent : b.events n with
      | lost cause => exact ⟨_, _, .interrupted hopening hlaunching hwon hevent⟩
      | deadline => exact ⟨_, _, .timedOut hopening hlaunching hwon hevent⟩
      | ended ending =>
          obtain ⟨m, result, hresult⟩ := b.exists_result
          obtain ⟨out, err, -, hcollected⟩ := hwon.result_of_ended hevent hresult
          cases ending with
          | signaled signal =>
              exact ⟨_, _, .signaled hopening hlaunching hwon hevent hcollected⟩
          | exited code =>
              by_cases hcode : code = 0
              · subst hcode
                exact ⟨_, _, .passed hopening hlaunching hwon hevent⟩
              · exact ⟨_, _, .nonZeroExit hopening hlaunching hwon hevent hcode hcollected⟩
      | _ =>
          rw [hevent] at hdecides
          exact hdecides.elim

/-- **A case is judged in this order**, and in no other. -/
theorem judges_iff_judged : b.Judges interpreter script deadline spawned v ↔
    b.Judged interpreter script deadline spawned v := by
  refine ⟨fun h => ?_, Judged.judges⟩
  obtain ⟨spawned', v', hjudged⟩ := b.exists_judged interpreter script deadline
  obtain ⟨p, -, hunique⟩ := b.existsUnique_judges interpreter script deadline
  have hp : (spawned, v) = p := hunique (spawned, v) h
  have hp' : (spawned', v') = p := hunique (spawned', v') hjudged.judges
  cases hp.trans hp'.symm
  exact hjudged

end Behaviour

end Conformance
