import Conformance.Proofs.Program.Diagnostics
import Conformance.Proofs.Report.Summary
import Conformance.Supervisor

set_option autoImplicit false

/-! # What the exit code tells

An invocation of the program goes one of four ways (`Program.Course`): its command line is answered
or refused, its settings are refused, its run stops at an error, or its run comes to its end. What
can be told from the exit (`Program.Tells`) is told way by way. Standard error is shared by the error
of a run and by what was logged before it. Standard output is shared by the summary and by what the
scripts have written, so that a report that was broken off can look as if it were complete
(`Program.stopped_sample`).

A run has to be bounded. Path names of directories are shorter than a walk may go deep
(`Computer.Bounded`), as they are on every file system, and the scripts are fewer than a word can
count.
-/

namespace Conformance

open Encounter (firstError? verdicts passes reports)

section

variable {σ : Type}

namespace Computer

def settings (computer : Computer σ) (a : Arguments) (state : σ) : Settings :=
  a.settings (computer.lookUp a.interpreter state) computer.terminal

/-- **What a run with these arguments meets.** -/
def Meets (computer : Computer σ) (a : Arguments) (state : σ) (es : List Encounter) (state' : σ) :
    Prop :=
  (computer.machine (computer.settings a state)).Meets (computer.settings a state) state
    [.enter a.root] es state'

/-- **What is asked of a computer**: its machines keep what file systems promise, and a walk may go
deeper than the path name of a directory is long. -/
structure Bounded (computer : Computer σ) : Prop where
  pos : 0 < computer.depth
  machine : ∀ s, (computer.machine s).Bounded computer.depth

theorem root_settings (computer : Computer σ) (a : Arguments) (state : σ) :
    (computer.settings a state).root = a.root := by
  unfold settings Arguments.settings
  cases a.timeout <;> rfl

theorem validate_settings {τ : Type} (computer : Computer σ) (other : Computer τ) (a : Arguments)
    (state : σ) (s : τ) :
    (computer.settings a state).validate = (other.settings a s).validate := by
  unfold settings Arguments.settings
  cases a.timeout <;> rfl

end Computer

namespace Program

variable {computer : Computer σ} {args : List Bytes} {state state' : σ} {exit : Exit}

/-! ## How an invocation goes -/

/-- How the program exits if the command line is not one to run a suite with. -/
def answer : UsageError → Exit
  | .help => ⟨0, Utf8.encode helpText, ""⟩
  | .version => ⟨0, Utf8.encode versionText, ""⟩
  | e => ⟨e.exitCode, [], usageText e⟩

/-- What is written to standard error when a run ends with an error. -/
def errorText (e : Error) : String := "Error: " ++ e.message ++ "\n"

/-- **How an invocation goes**: how it exits, and the state that it leaves behind. -/
inductive Course (computer : Computer σ) (args : List Bytes) (state : σ) : Exit → σ → Prop
  | answered {e : UsageError} : Arguments.parse args = .error e →
      Course computer args state (answer e) state
  | invalid {a : Arguments} {e : SettingsError} : Arguments.parse args = .ok a →
      (computer.settings a state).validate = .error e →
      Course computer args state ⟨1, [], errorText (.config e.message)⟩ state
  | stopped {a : Arguments} {es : List Encounter} {state' : σ} {e : Error} :
      Arguments.parse args = .ok a → (computer.settings a state).validate = .ok () →
      computer.Meets a state es state' → firstError? es = some e →
      Course computer args state ⟨1, reports (computer.settings a state) es,
        computer.logged state state' ++ errorText e⟩ state'
  | completed {a : Arguments} {es : List Encounter} {state' : σ} {t : Totals} :
      Arguments.parse args = .ok a → (computer.settings a state).validate = .ok () →
      computer.Meets a state es state' → firstError? es = none →
      t.Counts (verdicts es).length (passes es) →
      Course computer args state ⟨t.exitCode, reports (computer.settings a state) es ++
        Emission.written ((computer.settings a state).summary t), computer.logged state state'⟩ state'

theorem invoke_of_error {e : UsageError} (h : Arguments.parse args = .error e)
    (computer : Computer σ) (state : σ) : invoke computer args state = (answer e, state) := by
  unfold invoke
  rw [h]
  cases e <;> rfl

/-- A run asks for the interpreter, checks its settings and runs the suites. -/
theorem run_apply (computer : Computer σ) (a : Arguments) (state : σ) (sink : Sink) :
    run computer a ⟨state, sink⟩ =
      match (computer.settings a state).validate with
      | .error e => (.error (.failed (.config e.message)), ⟨state, sink⟩)
      | .ok () => (Walk.runSuites (computer.machine (computer.settings a state))
          (computer.settings a state) computer.depth >>= fun t => pure t.exitCode)
          ⟨state, sink⟩ := by
  have hrun : run computer a ⟨state, sink⟩ =
      (Walk.orStop (fun e => .failed (.config e.message)) (computer.settings a state).validate >>=
        fun _ => Walk.runSuites (computer.machine (computer.settings a state))
          (computer.settings a state) computer.depth >>= fun t => pure t.exitCode)
        ⟨state, sink⟩ := rfl
  rw [hrun]
  cases (computer.settings a state).validate <;> rfl

theorem invoke_of_invalid {a : Arguments} {e : SettingsError} (h : Arguments.parse args = .ok a)
    (hinvalid : (computer.settings a state).validate = .error e) :
    invoke computer args state = (⟨1, [], errorText (.config e.message)⟩, state) := by
  have hrun := run_apply computer a state .unlimited
  rw [hinvalid] at hrun
  simp only [invoke, h, hrun, Computer.logged_self, String.empty_append]
  rfl

/-- **Every invocation goes one of these ways.** -/
theorem course_invoke (hbounded : computer.Bounded) (args : List Bytes) (state : σ)
    (hfew : ∀ a es state', Arguments.parse args = .ok a → computer.Meets a state es state' →
      (verdicts es).length < UInt64.size) :
    Course computer args state (invoke computer args state).1 (invoke computer args state).2 := by
  cases hparse : Arguments.parse args with
  | error e =>
      rw [invoke_of_error hparse]
      exact .answered hparse
  | ok a =>
      cases hvalid : (computer.settings a state).validate with
      | error e =>
          rw [invoke_of_invalid hparse hvalid]
          exact .invalid hparse hvalid
      | ok _ =>
          obtain ⟨es, state', hmeets, hruns⟩ := Walk.exists_meets_runSuites
            (s := computer.settings a state) (hbounded.machine _) hbounded.pos state
          rw [computer.root_settings] at hmeets
          have hrun := run_apply computer a state .unlimited
          rw [hvalid] at hrun
          -- What is met is less than a word can count, so that the run does not overflow.
          rcases hruns (hfew a es state' hparse hmeets) with
            ⟨e, herror, hsuites⟩ | ⟨t, hfine, hcounts, hsuites⟩
          · rw [Walk.bind_of_error _ hsuites] at hrun
            have hinvoke : invoke computer args state =
                (⟨1, reports (computer.settings a state) es,
                  computer.logged state state' ++ errorText e⟩, state') := by
              simp only [invoke, hparse, hrun]
              rfl
            exact hinvoke ▸ .stopped hparse hvalid hmeets herror
          · rw [Walk.bind_of_ok _ hsuites] at hrun
            have hinvoke : invoke computer args state =
                (⟨t.exitCode, reports (computer.settings a state) es ++
                  Emission.written ((computer.settings a state).summary t),
                  computer.logged state state'⟩, state') := by
              simp only [invoke, hparse, hrun]
              rfl
            exact hinvoke ▸ .completed hparse hvalid hmeets hfine hcounts

/-- What a run meets is determined, so that it is enough to count it once. -/
theorem few_of_meets {a a' : Arguments} {es es' : List Encounter} {after after' : σ}
    (hparse : Arguments.parse args = .ok a) (hmeets : computer.Meets a state es after)
    (hfew : (verdicts es).length < UInt64.size) (hparse' : Arguments.parse args = .ok a')
    (hmeets' : computer.Meets a' state es' after') : (verdicts es').length < UInt64.size := by
  cases hparse.symm.trans hparse'
  obtain ⟨rfl, -⟩ := hmeets.unique hmeets'
  exact hfew

/-! ## What can be told from it -/

/-- **Nothing is run**: whatever computer the program is invoked on, it exits like this and leaves
the computer as it is. -/
def RunsNothing (args : List Bytes) (exit : Exit) : Prop :=
  ∀ {τ : Type} (other : Computer τ) (s : τ), invoke other args s = (exit, s)

/-- **Standard error has no error**, only what was logged, and this does not read like one unless a
line of the logger does. -/
structure Errorless (computer : Computer σ) (before after : σ) (stderr : String) : Prop where
  eq_logged : stderr = computer.logged before after
  not_complains : (∀ d ∈ computer.diagnosed before after, Harmless (computer.line d)) →
    ¬ Complains stderr

theorem errorless_logged (before after : σ) :
    Errorless computer before after (computer.logged before after) :=
  ⟨rfl, computer.not_complains_logged⟩

/-- **The ways to fail.** -/
inductive Failed (computer : Computer σ) (args : List Bytes) (state : σ) (exit : Exit)
    (state' : σ) : Prop
  /-- Some test has failed, and the summary says so. -/
  | tests {a : Arguments} {es : List Encounter} : Arguments.parse args = .ok a →
      (computer.settings a state).validate = .ok () → computer.Meets a state es state' →
      firstError? es = none → (∃ v ∈ verdicts es, v.isPass = false) →
      Errorless computer state state' exit.stderr →
      (computer.settings a state).Says exit.stdout false → Failed computer args state exit state'
  /-- The run met an error, which stands behind what was logged before; what is written are the
  reports of the scripts that it met before. -/
  | run {a : Arguments} {es : List Encounter} {e : Error} : Arguments.parse args = .ok a →
      (computer.settings a state).validate = .ok () → computer.Meets a state es state' →
      firstError? es = some e → exit.stderr = computer.logged state state' ++ errorText e →
      exit.stdout = reports (computer.settings a state) es → Failed computer args state exit state'
  /-- The settings are refused. -/
  | settings {a : Arguments} {e : SettingsError} : Arguments.parse args = .ok a →
      (computer.settings a state).validate = .error e →
      exit.stderr = errorText (.config e.message) → exit.stdout = [] → RunsNothing args exit →
      Failed computer args state exit state'

/-- **What an exit tells of its invocation.** -/
structure Tells (computer : Computer σ) (args : List Bytes) (state : σ) (exit : Exit)
    (state' : σ) : Prop where
  code : exit.code = 0 ∨ exit.code = 1 ∨ exit.code = 2
  /-- The code of a command line that is refused. -/
  two_iff : exit.code = 2 ↔ ∃ e, Arguments.parse args = .error e ∧ e ≠ .help ∧ e ≠ .version
  of_two : exit.code = 2 → exit.stdout = [] ∧ RunsNothing args exit
  /-- The code of an answer, and of a run that meets nothing but what is fine. -/
  zero_iff : exit.code = 0 ↔ Arguments.parse args = .error .help ∨
    Arguments.parse args = .error .version ∨ ∃ a es, Arguments.parse args = .ok a ∧
      (computer.settings a state).validate = .ok () ∧ computer.Meets a state es state' ∧
      ∀ x ∈ es, x.Fine
  of_one : exit.code = 1 → Failed computer args state exit state'
  /-- A run that comes to its end writes no error, and its summary says what the exit code is. -/
  of_completed : ∀ {a : Arguments} {es : List Encounter} {after : σ},
    Arguments.parse args = .ok a → (computer.settings a state).validate = .ok () →
    computer.Meets a state es after → firstError? es = none →
      Errorless computer state after exit.stderr ∧
      (exit.code = 0 ↔ (computer.settings a state).Says exit.stdout true) ∧
      (exit.code = 1 ↔ (computer.settings a state).Says exit.stdout false)

theorem answer_cases (e : UsageError) :
    (answer e).code = 0 ∧ (e = .help ∨ e = .version) ∨
      (answer e).code = 2 ∧ e ≠ .help ∧ e ≠ .version ∧ (answer e).stdout = [] := by
  cases e <;> simp [answer, UsageError.exitCode]

namespace Course

theorem code_cases (h : Course computer args state exit state') :
    exit.code = 0 ∨ exit.code = 1 ∨ exit.code = 2 := by
  cases h with
  | @answered e _ =>
      rcases answer_cases e with ⟨hcode, -⟩ | ⟨hcode, -⟩
      · exact Or.inl hcode
      · exact Or.inr (Or.inr hcode)
  | invalid | stopped => exact Or.inr (Or.inl rfl)
  | completed _ _ _ _ hcounts =>
      rcases hcounts.exitCode_cases with ⟨-, hcode⟩ | ⟨-, hcode⟩
      · exact Or.inl hcode
      · exact Or.inr (Or.inl hcode)

theorem eq_or_meets (h : Course computer args state exit state') :
    state' = state ∨ ∃ a es, computer.Meets a state es state' := by
  cases h with
  | answered | invalid => exact Or.inl rfl
  | stopped _ _ hmeets | completed _ _ hmeets => exact Or.inr ⟨_, _, hmeets⟩

theorem eq_answer (h : Course computer args state exit state') {e : UsageError}
    (hparse : Arguments.parse args = .error e) : exit = answer e := by
  cases h with
  | answered hparse' =>
      cases hparse.symm.trans hparse'
      rfl
  | invalid hparse' | stopped hparse' | completed hparse' => cases hparse.symm.trans hparse'

/-- **Exit code two** is for command lines that are refused. -/
theorem two_iff (h : Course computer args state exit state') :
    exit.code = 2 ↔ ∃ e, Arguments.parse args = .error e ∧ e ≠ .help ∧ e ≠ .version := by
  cases h with
  | @answered e hparse =>
      rcases answer_cases e with ⟨hcode, hanswer⟩ | ⟨hcode, hhelp, hversion, -⟩
      · refine iff_of_false (by simp [hcode]) ?_
        rintro ⟨e', hparse', hhelp, hversion⟩
        cases hparse.symm.trans hparse'
        exact hanswer.elim hhelp hversion
      · exact iff_of_true hcode ⟨e, hparse, hhelp, hversion⟩
  | invalid hparse | stopped hparse =>
      exact iff_of_false nofun fun ⟨_, hparse', _⟩ => nomatch hparse.symm.trans hparse'
  | completed hparse _ _ _ hcounts =>
      refine iff_of_false ?_ fun ⟨_, hparse', _⟩ => nomatch hparse.symm.trans hparse'
      rcases hcounts.exitCode_cases with ⟨-, hcode⟩ | ⟨-, hcode⟩ <;> simp [hcode]

/-- Nothing is run, and nothing is written to standard output, if the command line is refused. -/
theorem of_two (h : Course computer args state exit state') (htwo : exit.code = 2) :
    exit.stdout = [] ∧ RunsNothing args exit := by
  obtain ⟨e, hparse, hhelp, hversion⟩ := h.two_iff.mp htwo
  rw [h.eq_answer hparse]
  rcases answer_cases e with ⟨-, hanswer⟩ | ⟨-, -, -, hstdout⟩
  · exact absurd hanswer (not_or.mpr ⟨hhelp, hversion⟩)
  · exact ⟨hstdout, invoke_of_error hparse⟩

/-- **What a run meets decides how it goes.** -/
theorem of_meets (h : Course computer args state exit state') {a : Arguments} {es : List Encounter}
    {after : σ} (hparse : Arguments.parse args = .ok a)
    (hvalid : (computer.settings a state).validate = .ok ())
    (hmeets : computer.Meets a state es after) :
    (∃ e, firstError? es = some e ∧
      exit = ⟨1, reports (computer.settings a state) es,
        computer.logged state after ++ errorText e⟩) ∨
    ∃ t, firstError? es = none ∧ t.Counts (verdicts es).length (passes es) ∧
      exit = ⟨t.exitCode, reports (computer.settings a state) es ++
        Emission.written ((computer.settings a state).summary t), computer.logged state after⟩ := by
  cases h with
  | answered hparse' => cases hparse.symm.trans hparse'
  | invalid hparse' hinvalid =>
      cases hparse.symm.trans hparse'
      cases hvalid.symm.trans hinvalid
  | stopped hparse' _ hmeets' herror =>
      cases hparse.symm.trans hparse'
      obtain ⟨rfl, rfl⟩ := hmeets.unique hmeets'
      exact Or.inl ⟨_, herror, rfl⟩
  | completed hparse' _ hmeets' hfine hcounts =>
      cases hparse.symm.trans hparse'
      obtain ⟨rfl, rfl⟩ := hmeets.unique hmeets'
      exact Or.inr ⟨_, hfine, hcounts, rfl⟩

/-- **Exit code zero** is for runs that meet nothing but what is fine, and for answers. -/
theorem zero_iff (h : Course computer args state exit state') :
    exit.code = 0 ↔ Arguments.parse args = .error .help ∨
      Arguments.parse args = .error .version ∨ ∃ a es, Arguments.parse args = .ok a ∧
        (computer.settings a state).validate = .ok () ∧ computer.Meets a state es state' ∧
        ∀ x ∈ es, x.Fine := by
  constructor
  · intro hzero
    cases h with
    | @answered e hparse =>
        rcases answer_cases e with ⟨-, rfl | rfl⟩ | ⟨htwo, -⟩
        · exact Or.inl hparse
        · exact Or.inr (Or.inl hparse)
        · cases hzero.symm.trans htwo
    | invalid | stopped => cases hzero
    | completed hparse hvalid hmeets hfine hcounts =>
        rcases hcounts.exitCode_cases with ⟨hall, -⟩ | ⟨-, hone⟩
        · exact Or.inr (Or.inr ⟨_, _, hparse, hvalid, hmeets,
            Encounter.forall_fine_iff.mpr ⟨hfine, hall⟩⟩)
        · cases hzero.symm.trans hone
  · rintro (hparse | hparse | ⟨a, es, hparse, hvalid, hmeets, hfine⟩)
    · rw [h.eq_answer hparse]
      rfl
    · rw [h.eq_answer hparse]
      rfl
    · obtain ⟨hnone, hall⟩ := Encounter.forall_fine_iff.mp hfine
      obtain ⟨e, herror, -⟩ | ⟨t, -, hcounts, rfl⟩ := h.of_meets hparse hvalid hmeets
      · cases hnone.symm.trans herror
      · rcases hcounts.exitCode_cases with ⟨-, hzero⟩ | ⟨hnot, -⟩
        · exact hzero
        · exact absurd hall hnot

/-- **A run that comes to its end has a summary that says what the exit code is.** -/
theorem of_completed (h : Course computer args state exit state') {a : Arguments}
    {es : List Encounter} {after : σ} (hparse : Arguments.parse args = .ok a)
    (hvalid : (computer.settings a state).validate = .ok ())
    (hmeets : computer.Meets a state es after) (hfine : firstError? es = none) :
    Errorless computer state after exit.stderr ∧
      (exit.code = 0 ↔ (computer.settings a state).Says exit.stdout true) ∧
      (exit.code = 1 ↔ (computer.settings a state).Says exit.stdout false) := by
  obtain ⟨e, herror, -⟩ | ⟨t, -, hcounts, rfl⟩ := h.of_meets hparse hvalid hmeets
  · cases hfine.symm.trans herror
  · have hlast := (computer.settings a state).says_summary
      (Encounter.ended_reports (computer.settings a state) es) hcounts
    rcases hcounts.exitCode_cases with ⟨hall, hcode⟩ | ⟨hnot, hcode⟩
    · rw [decide_eq_true hall] at hlast
      refine ⟨errorless_logged _ _, iff_of_true hcode hlast, iff_of_false (by simp [hcode]) fun h => ?_⟩
      cases hlast.unique h
    · rw [decide_eq_false hnot] at hlast
      refine ⟨errorless_logged _ _, iff_of_false (by simp [hcode]) fun h => ?_, iff_of_true hcode hlast⟩
      cases hlast.unique h

/-- **Exit code one** is for the ways to fail. -/
theorem failed (h : Course computer args state exit state') (hone : exit.code = 1) :
    Failed computer args state exit state' := by
  cases h with
  | @answered e _ =>
      rcases answer_cases e with ⟨hcode, -⟩ | ⟨hcode, -⟩ <;> cases hone.symm.trans hcode
  | @invalid a e hparse hinvalid =>
      refine .settings hparse hinvalid rfl rfl fun other s => ?_
      exact invoke_of_invalid hparse ((other.validate_settings computer a s state).trans hinvalid)
  | stopped hparse hvalid hmeets herror => exact .run hparse hvalid hmeets herror rfl rfl
  | completed hparse hvalid hmeets hfine hcounts =>
      have hcourse := Course.completed hparse hvalid hmeets hfine hcounts
      obtain ⟨hstderr, -, hlast⟩ := hcourse.of_completed hparse hvalid hmeets hfine
      refine .tests hparse hvalid hmeets hfine ?_ hstderr (hlast.mp hone)
      rcases hcounts.exitCode_cases with ⟨-, hzero⟩ | ⟨hnot, -⟩
      · cases hone.symm.trans hzero
      · -- If no verdict were a failure, as many would have passed as there are.
        by_contra hall
        refine hnot (List.countP_eq_length.mpr fun v hv => ?_)
        by_contra hpass
        exact hall ⟨v, hv, by simpa using hpass⟩

end Course

/-- **What the exit code tells**, for every command line on every computer that is bounded: it is
two if the command line is refused, zero if help or the version is asked for or if everything that
the run meets is fine, and one if the run fails. -/
theorem invoke_tells (hbounded : computer.Bounded) (args : List Bytes) (state : σ)
    (hfew : ∀ a es state', Arguments.parse args = .ok a → computer.Meets a state es state' →
      (verdicts es).length < UInt64.size) :
    Tells computer args state (invoke computer args state).1 (invoke computer args state).2 := by
  have hcourse := course_invoke hbounded args state hfew
  exact {
    code := hcourse.code_cases
    two_iff := hcourse.two_iff
    of_two := hcourse.of_two
    zero_iff := hcourse.zero_iff
    of_one := hcourse.failed
    of_completed := hcourse.of_completed }

end Program

end

/-! ## A computer to show this on -/

namespace View

/-- The computer with the files of a view, on which each case has the given outcome. -/
def computer (v : View) (outcome : TestCase → Outcome) (depth : Nat) :
    Computer (List TestCase) where
  lookUp p _ := p
  machine _ := v.machineOf outcome
  depth := depth
  terminal := false
  diagnostics _ := []
  line := Diagnostic.line

theorem bounded_computer {v : View} {outcome : TestCase → Outcome} {depth : Nat} (hpos : 0 < depth)
    (hplain : v.Plain) (hdepth : ∀ p, v.isDirectory p = true → p.bytes.length < depth) :
    (v.computer outcome depth).Bounded where
  pos := hpos
  machine _ := ⟨fun dir _ names hl => (hplain dir names hl).2, fun p _ => hdepth p⟩

end View

namespace Program

/-- On the sample two of three scripts fail, and the summary says so. -/
theorem invoke_tells_sample :
    ∃ exit state', invoke (View.sampleListed.computer View.sampleOutcome 9)
        (["t", "lua"].map Utf8.encode) [] = (exit, state') ∧
      exit.code = 1 ∧ exit.stderr = "" ∧ Settings.sample.Says exit.stdout false := by
  have hparse : Arguments.parse (["t", "lua"].map Utf8.encode) =
      .ok ⟨.ofText "t", .ofText "lua", none, "lua", .auto, false⟩ := by
    rfl
  have hplain : View.sampleListed.Plain := View.plain_ofListings (by decide)
  have hbounded : (View.sampleListed.computer View.sampleOutcome 9).Bounded :=
    View.bounded_computer (by decide) hplain fun p => View.length_lt_ofListings (by decide)
  have hdone : (View.sampleListed.machineOf View.sampleOutcome).Meets .sample
      ([] ++ Settings.sample.scripts View.sampleSights) [] []
      (Settings.sample.scripts View.sampleSights) := .done _
  obtain ⟨es, hfine, hverdicts, hmeets⟩ := View.trail_sampleListed.exists_meets hdone
  rw [List.append_nil] at hmeets
  have hthree : (verdicts es).length = 3 := by
    rw [hverdicts]
    decide
  have hone : passes es = 1 := by
    rw [passes, hverdicts]
    decide
  have hfew : (verdicts es).length < UInt64.size := by
    rw [hthree]
    decide
  have htells := invoke_tells hbounded (["t", "lua"].map Utf8.encode) []
    fun _ _ _ => few_of_meets hparse hmeets hfew
  obtain ⟨hstderr, -, hlast⟩ := htells.of_completed hparse rfl hmeets hfine
  have hcode : (invoke (View.sampleListed.computer View.sampleOutcome 9)
      (["t", "lua"].map Utf8.encode) []).1.code = 1 := by
    rcases htells.code with h | h | h
    · obtain h | h | ⟨a, es', hparse', -, hmeets', hall⟩ := htells.zero_iff.mp h
      · cases hparse.symm.trans h
      · cases hparse.symm.trans h
      · cases hparse.symm.trans hparse'
        obtain ⟨rfl, -⟩ := hmeets.unique hmeets'
        have hpasses := (Encounter.forall_fine_iff.mp hall).2
        rw [hone, hthree] at hpasses
        cases hpasses
    · exact h
    · obtain ⟨e, he, -⟩ := htells.two_iff.mp h
      cases hparse.symm.trans he
  exact ⟨_, _, rfl, hcode, hstderr.eq_logged, hlast.mp hcode⟩

/-- What is written by the script of `View.sampleStubborn`. -/
def pretence : Bytes := Utf8.encode "[Success] All tests passed!\n"

end Program

/-- A computer with the sample files of which a directory cannot be listed. Every case exits with one,
but a process that has left its group still holds its streams then and writes a line that looks like
a summary. The state is what was logged. -/
def View.sampleStubborn : Computer (List Diagnostic) where
  lookUp p _ := p
  machine _ := {
    list := fun p _ => View.sampleBlocked.list p
    isDirectory := fun p _ => View.sampleBlocked.isDirectory p
    run := fun _ log =>
      let events : List Event := [.ended (.exited 1), .grace, .wrote .stdout Program.pretence,
        .closed .stdout, .closed .stderr]
      (((Supervisor.start.afterAll events).1.result?).getD (.error (.lost (.os .noChild))),
        log ++ (Supervisor.start.warnings events).map (⟨0, 12, ·⟩)) }
  depth := 9
  terminal := false
  diagnostics log := log
  line := Diagnostic.line

namespace Program

/-- **A run that was stopped by an error can look as if it had succeeded.** On the sample it stops at a
directory and exits with one. Standard error has a warning as well as the error, and the last line of
the report, which the script has written, says that all tests have passed. -/
theorem stopped_sample :
    let e : Error := .discovery (.ofText "t/b.lua") .notText
    let exit := (invoke View.sampleStubborn (["t", "lua"].map Utf8.encode) []).1
    (∃ es after, View.sampleStubborn.Meets
        ⟨.ofText "t", .ofText "lua", none, "lua", .auto, false⟩ [] es after ∧
        firstError? es = some e) ∧
      exit.code = 1 ∧ exit.stderr ≠ errorText e ∧ Settings.sample.Says exit.stdout true := by
  intro e exit
  have hparse : Arguments.parse (["t", "lua"].map Utf8.encode) =
      .ok ⟨.ofText "t", .ofText "lua", none, "lua", .auto, false⟩ := by
    rfl
  have hplain : View.sampleBlocked.Plain := View.plain_ofListings (by decide)
  have hbounded : View.sampleStubborn.Bounded := {
    pos := by decide
    machine := fun _ => ⟨fun dir _ names hl => (hplain dir names hl).2,
      fun p _ => View.length_lt_ofListings (by decide)⟩ }
  have horder : Walk.entryPaths (.ofText "t") (["c.lua", "b.lua", "a.lua"].map Utf8.encode) =
      [.ofText "t/a.lua", .ofText "t/b.lua", .ofText "t/c.lua"] := by cbv
  let es : List Encounter := [
    .directory (.ofText "t") (.ok (["c.lua", "b.lua", "a.lua"].map Utf8.encode)),
    .script ⟨.ofText "t/a.lua"⟩ (.ok (classify ⟨.exited 1, pretence, []⟩ ⟨2, 0⟩)),
    .directory (.ofText "t/b.lua") (.error .notText)]
  have hmeets : View.sampleStubborn.Meets ⟨.ofText "t", .ofText "lua", none, "lua", .auto, false⟩ []
      es [⟨0, 12, .stillOpen⟩] := by
    refine .enter rfl ?_
    rw [horder]
    exact .run rfl (by decide) rfl rfl (.descend rfl (.blocked _ rfl))
  have hcourse := course_invoke hbounded (["t", "lua"].map Utf8.encode) []
    fun _ _ _ => few_of_meets hparse hmeets (by decide)
  have hlogged : View.sampleStubborn.logged [] [⟨0, 12, .stillOpen⟩] =
      Diagnostic.line ⟨0, 12, .stillOpen⟩ := String.join_cons.trans String.append_empty
  have hlast : lastLine? (reports .sample es) =
      some (Utf8.encode ((Reporter.ofSettings .sample).summaryText 0 0)) := by decide +kernel
  obtain ⟨e', he', hexit⟩ | ⟨t, hfine, -⟩ := hcourse.of_meets hparse rfl hmeets
  · cases he'
    rw [show exit = _ from hexit, hlogged]
    exact ⟨⟨_, _, hmeets, rfl⟩, rfl, Diagnostic.line_append_ne _ _, .text 0 0 rfl hlast⟩
  · cases hfine

end Program

end Conformance
