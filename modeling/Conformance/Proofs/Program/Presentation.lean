import Conformance.Proofs.Program.Exit
import Conformance.Proofs.Report.Color
import Conformance.Proofs.Walk.Log

set_option autoImplicit false

/-! # Colour and format decide how a run looks

Whether a report is in colour and in which format it is written is nothing but its look: in JSON format
there is no colour, in text format the colours can be deleted, and of a run neither changes anything but
what is written (`Program.look_decides_nothing`). Runs with different looks mirror each other on sinks
that take everything, since there reporting does not fail, whatever is reported (`Walk.mirrors_look`).
-/

namespace Conformance

/-! ## Runs -/

def Settings.look (s : Settings) (color : Bool) (format : Format) : Settings :=
  (s.withColor color).withFormat format

namespace Walk

variable {σ : Type}

/-- Two sessions in one state, with sinks that take everything. -/
def Unrefused (a b : Session σ) : Prop :=
  a.state = b.state ∧ (∃ held, a.sink = .holding held) ∧ ∃ held, b.sink = .holding held

theorem same_report (emissions emissions' : List Emission) :
    Same (Unrefused (σ := σ)) (fun _ => True) (report emissions) (report emissions') := by
  rintro ⟨a, _⟩ ⟨b, _⟩ ⟨hstate, ⟨held, rfl⟩, ⟨held', rfl⟩⟩
  rw [report_holding, report_holding]
  exact ⟨rfl, ⟨hstate, ⟨_, rfl⟩, ⟨_, rfl⟩⟩, fun _ _ => trivial⟩

/-- **Runs with different looks mirror each other.** -/
theorem mirrors_look (m : Machine σ) (s : Settings) (color : Bool) (format : Format) :
    Mirrors Unrefused m (s.look color format) m s where
  root := rfl
  timeout := rfl
  isScript _ := rfl
  list hab _ := by rw [hab.1]
  isDirectory hab _ := by rw [hab.1]
  result hab _ := by rw [hab.1]
  state hab _ := ⟨by rw [hab.1], hab.2⟩
  started _ := same_report _ _
  finished _ _ := same_report _ _
  summary _ _ _ _ _ := same_report _ _

/-- **The look of the report changes nothing about a run** on a sink that takes everything. -/
theorem runSuites_look (m : Machine σ) (s : Settings) (color : Bool) (format : Format) (depth : ℕ)
    (state : σ) (held held' : Bytes) :
    (runSuites m (s.look color format) depth ⟨state, .holding held⟩).1 =
        (runSuites m s depth ⟨state, .holding held'⟩).1 ∧
      (runSuites m (s.look color format) depth ⟨state, .holding held⟩).2.state =
        (runSuites m s depth ⟨state, .holding held'⟩).2.state := by
  obtain ⟨hresult, ⟨hstate, -⟩, -⟩ := same_runSuites (mirrors_look m s color format) depth
    ⟨state, .holding held⟩ ⟨state, .holding held'⟩ ⟨rfl, ⟨held, rfl⟩, ⟨held', rfl⟩⟩
  exact ⟨hresult, hstate⟩

end Walk

/-! ## The program -/

/-- A computer whose machines do not depend on the look of the report. -/
def Computer.Blind {σ : Type} (computer : Computer σ) : Prop :=
  ∀ s color format, computer.machine (Settings.look s color format) = computer.machine s

namespace Program

variable {σ : Type} {computer : Computer σ}

theorem exists_settings_eq_look (computer : Computer σ) (a : Arguments) (color : ColorChoice)
    (json : Bool) (state : σ) :
    ∃ shown format, computer.settings { a with color := color, json := json } state =
      (computer.settings a state).look shown format := by
  refine ⟨color.resolve computer.terminal, if json then .json else .text, ?_⟩
  unfold Computer.settings Arguments.settings
  cases a.timeout <;> rfl

/-- **The exit code of a run does not depend on the look of the report.** -/
theorem run_look (hblind : computer.Blind) (a : Arguments) (color : ColorChoice) (json : Bool)
    (state : σ) :
    (run computer { a with color := color, json := json } ⟨state, .unlimited⟩).1 =
        (run computer a ⟨state, .unlimited⟩).1 ∧
      (run computer { a with color := color, json := json } ⟨state, .unlimited⟩).2.state =
        (run computer a ⟨state, .unlimited⟩).2.state := by
  obtain ⟨shown, format, hlook⟩ := exists_settings_eq_look computer a color json state
  rw [run_apply, run_apply, hlook, hblind]
  generalize computer.settings a state = s
  have hvalidate : (s.look shown format).validate = s.validate := rfl
  rw [hvalidate]
  cases s.validate with
  | error e => exact ⟨rfl, rfl⟩
  | ok u =>
      have hwalks := Walk.same_runSuites (Walk.mirrors_look (computer.machine s) s shown format)
        computer.depth
      have hcode : ∀ t : Totals, t.Sound → Walk.Same (Walk.Unrefused (σ := σ)) (fun _ => True)
          (pure t.exitCode) (pure t.exitCode) := fun _ _ => Walk.same_pure trivial
      obtain ⟨hresult, ⟨hstate, -⟩, -⟩ := hwalks.bind hcode ⟨state, .unlimited⟩ ⟨state, .unlimited⟩
        ⟨rfl, ⟨[], rfl⟩, ⟨[], rfl⟩⟩
      exact ⟨hresult, hstate⟩

/-- **The exit of an invocation does not depend on the look of the report**, but for what is written to
standard output. -/
theorem invoke_look (hblind : computer.Blind) {args args' : List Bytes} {a : Arguments}
    {color : ColorChoice} {json : Bool} (hargs : Arguments.parse args = .ok a)
    (hargs' : Arguments.parse args' = .ok { a with color := color, json := json }) (state : σ) :
    (invoke computer args' state).1.code = (invoke computer args state).1.code ∧
      (invoke computer args' state).1.stderr = (invoke computer args state).1.stderr ∧
      (invoke computer args' state).2 = (invoke computer args state).2 := by
  obtain ⟨hresult, hstate⟩ := run_look hblind a color json state
  rcases hrun : run computer a ⟨state, .unlimited⟩ with ⟨r, left⟩
  rcases hrun' : run computer { a with color := color, json := json } ⟨state, .unlimited⟩
    with ⟨r', left'⟩
  rw [hrun, hrun'] at hresult hstate
  obtain rfl : r' = r := hresult
  have hleft : left'.state = left.state := hstate
  -- What was logged is told by the states.
  cases r' with
  | error reason => simp [invoke, hargs, hargs', hrun, hrun', hleft]
  | ok code => simp [invoke, hargs, hargs', hrun, hrun', hleft]

/-- **Nothing but the look of a report depends on its colour and its format.** Any calls of a reporter in
JSON format come to the same with colours and without. In text format the colours can be deleted, if no
text that is shown has an escape character, and there is none in the report without colours. A run of
all suites comes to the same totals or the same error, executes the same cases in the same order and
leaves the machine in the same state; an invocation of the program exits with the same code and the same
message. -/
theorem look_decides_nothing :
    (∀ (calls : List Call) (sink : Sink),
      (Reporter.make true .json).callAll sink calls =
        (Reporter.make false .json).callAll sink calls) ∧
    (∀ calls : List Call, (∀ c ∈ calls, ∀ text ∈ c.texts, '\x1b' ∉ text.toList) →
      Ansi.delete ((Reporter.make true .text).output calls) =
        (Reporter.make false .text).output calls ∧
      Ansi.escape ∉ (Reporter.make false .text).output calls) ∧
    (∀ {σ : Type} (m : Machine σ) (s : Settings) (color : Bool) (format : Format) (depth : ℕ)
      (state : σ) (held : Bytes),
      (Walk.runSuites m ((s.withColor color).withFormat format) depth ⟨state, .holding held⟩).1 =
        (Walk.runSuites m s depth ⟨state, .holding held⟩).1 ∧
      (Walk.runSuites m ((s.withColor color).withFormat format) depth
          ⟨state, .holding held⟩).2.state =
        (Walk.runSuites m s depth ⟨state, .holding held⟩).2.state ∧
      Walk.executed m ((s.withColor color).withFormat format) depth ⟨state, .holding held⟩ =
        Walk.executed m s depth ⟨state, .holding held⟩) ∧
    ∀ {σ : Type} (computer : Computer σ) (args args' : List Bytes) (a : Arguments)
      (color : ColorChoice) (json : Bool) (state : σ), computer.Blind →
      Arguments.parse args = .ok a →
      Arguments.parse args' = .ok { a with color := color, json := json } →
      (invoke computer args' state).1.code = (invoke computer args state).1.code ∧
      (invoke computer args' state).1.stderr = (invoke computer args state).1.stderr ∧
      (invoke computer args' state).2 = (invoke computer args state).2 := by
  refine ⟨fun calls sink => rfl, fun calls hfree => Reporter.delete_output_text hfree, ?_, ?_⟩
  · intro σ m s color format depth state held
    obtain ⟨hresult, hstate⟩ := Walk.runSuites_look m s color format depth state held held
    obtain ⟨-, hlog⟩ := Walk.runSuites_look m.logged s color format depth (state, []) held held
    exact ⟨hresult, hstate, congrArg Prod.snd hlog⟩
  · intro σ computer args args' a color json state hblind hargs hargs'
    exact invoke_look hblind hargs hargs' state

/-- A case that fails with output, and the summary of a run of that case alone. -/
def sampleFailing : List Call :=
  [.started ⟨.ofText "t/a.lua"⟩,
    .finished ⟨.ofText "t/a.lua"⟩ (.failed (.nonZeroExit 3 "[0m\n" "")), .summary ⟨1, 0⟩]

/-- The colours of the sample are deleted; in the coloured JSON report there are none; and the exit code
of a run on the sample files is the same for both looks. -/
theorem look_decides_nothing_sample :
    Ansi.delete ((Reporter.make true .text).output sampleFailing) =
      (Reporter.make false .text).output sampleFailing ∧
    (invoke (View.sampleListed.computer View.sampleOutcome 9)
      (["t", "lua", "--json", "--color", "always"].map Utf8.encode) []).1.code =
    (invoke (View.sampleListed.computer View.sampleOutcome 9)
      (["t", "lua"].map Utf8.encode) []).1.code := by
  obtain ⟨-, htext, -, hinvoke⟩ := look_decides_nothing
  have hfree : ∀ c ∈ sampleFailing, ∀ text ∈ c.texts, '\x1b' ∉ text.toList := by decide +kernel
  have hargs : Arguments.parse (["t", "lua"].map Utf8.encode) =
      .ok ⟨.ofText "t", .ofText "lua", none, "lua", .auto, false⟩ := by rfl
  have hargs' : Arguments.parse (["t", "lua", "--json", "--color", "always"].map Utf8.encode) =
      .ok ⟨.ofText "t", .ofText "lua", none, "lua", .always, true⟩ := by rfl
  exact ⟨(htext sampleFailing hfree).1,
    (hinvoke (View.sampleListed.computer View.sampleOutcome 9) _ _ _ .always true []
      (fun _ _ _ => rfl) hargs hargs').1⟩

end Program

end Conformance
