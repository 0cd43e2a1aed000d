import Conformance.Proofs.Report.Records
import Conformance.Proofs.Walk.Completion

set_option autoImplicit false

/-! # What the output of a case can change

Two runs over the same files, whose cases end alike (`Outcome.ending`) but write what they want: the
same cases are run, in the same order, and the run ends with the same totals or the same error. The
report is the same too, byte for byte, if the output that is shown is (`Outcome.shown`), which is
the decoded output of the cases that ended with another exit code than zero or by a signal
(`View.output_does_not_steer`).

What is compared are the two transcripts of the runs, which run the same cases whatever comes of
them.
-/

namespace Conformance

namespace Outcome

/-- How a case ended, without what its process has written. -/
def ending (o : Outcome) : Except CaseError Completion := o.map Execution.completion

variable {o o' : Outcome}

/-- **Whether a case passes depends on how it ended.** -/
theorem passes_eq_of_ending (h : o.ending = o'.ending) : o.passes = o'.passes := by
  cases o with
  | error e =>
      cases o' with
      | error e' => rfl
      | ok execution' => cases h
  | ok execution =>
      cases o' with
      | error e' => cases h
      | ok execution' =>
          have hcompletion : execution.completion = execution'.completion := Except.ok.inj h
          simp only [passes, hcompletion]

/-- **The verdict on a case depends on how it ended** and on its output as far as it is shown. -/
theorem verdict_eq_of_ending (h : o.ending = o'.ending) (hshown : o.shown = o'.shown)
    (deadline : Duration) : o.verdict deadline = o'.verdict deadline := by
  cases o with
  | error e =>
      cases o' with
      | error e' => rw [Except.error.inj h]
      | ok execution' => cases h
  | ok execution =>
      cases o' with
      | error e' => cases h
      | ok execution' =>
          obtain ⟨completion, stdout, stderr⟩ := execution
          obtain ⟨completion', stdout', stderr'⟩ := execution'
          obtain rfl : completion = completion' := Except.ok.inj h
          cases completion with
          | timedOut => rfl
          | signaled signal =>
              obtain ⟨hstdout, hstderr⟩ := Prod.mk.inj (Option.some.inj hshown)
              simp only [verdict, classify, hstdout, hstderr]
          | exited code =>
              by_cases hcode : code = 0
              · simp only [verdict, classify, if_pos hcode]
              · simp only [shown, if_neg hcode] at hshown
                obtain ⟨hstdout, hstderr⟩ := Prod.mk.inj (Option.some.inj hshown)
                simp only [verdict, classify, if_neg hcode, hstdout, hstderr]

end Outcome

namespace Settings

variable {s : Settings} {o o' : TestCase → Outcome}

theorem casesActs_congr {cs : List TestCase} (h : ∀ c ∈ cs, s.verdict o c = s.verdict o' c) :
    s.casesActs o cs = s.casesActs o' cs := by
  induction cs with
  | nil => rfl
  | cons c cs ih =>
      obtain ⟨hc, hcs⟩ := List.forall_mem_cons.mp h
      rw [casesActs_cons, casesActs_cons, caseActs, caseActs, hc, ih hcs]

end Settings

namespace Totals

variable {o o' : TestCase → Outcome}

/-- Totals count cases that pass, and nothing else about them. -/
theorem CountsCases.congr {t : Totals} {cs : List TestCase} (ht : t.CountsCases o cs)
    (h : ∀ c ∈ cs, (o c).passes = (o' c).passes) : t.CountsCases o' cs := by
  have hcount : cs.countP (fun c => (o c).passes) = cs.countP fun c => (o' c).passes :=
    List.countP_congr fun c hc => by rw [h c hc]
  rw [CountsCases, ← hcount]
  exact ht

end Totals

namespace View

variable {v : View} {s : Settings} {o o' : TestCase → Outcome} {depth : Nat}

def IsCase (v : View) (s : Settings) (c : TestCase) : Prop :=
  v.Below s.root c.path ∧ v.isDirectory c.path = false ∧ s.isScript c.path = true

/-- What two runs over the same files have in common: **the cases that they run**. Both come to
their end, each with the totals of its own outcomes, or both stop for the same reason. -/
theorem exists_plays_both (v : View) (s : Settings) (o o' : TestCase → Outcome) (depth : Nat) :
    ∃ cs r r', (∀ c ∈ cs, v.IsCase s c) ∧
      Walk.Plays (Walk.runSuites (v.machineOf o) s depth)
        (s.casesActs o cs ++ (s.ending r).map .emit) r ∧
      Walk.Plays (Walk.runSuites (v.machineOf o') s depth)
        (s.casesActs o' cs ++ (s.ending r').map .emit) r' ∧
      ((∃ t t', r = .ok t ∧ r' = .ok t' ∧ t.CountsCases o cs ∧ t'.CountsCases o' cs) ∨
        ∃ reason, r = .error reason ∧ r' = .error reason) := by
  obtain ⟨sights, last, r, htrail, hfate, hplays⟩ := exists_plays_runSuites v s o depth
  obtain ⟨sights', last', r', -, hfate', hplays'⟩ := exists_plays_runSuites v s o' depth
  obtain ⟨halike, hstate⟩ := v.runSuites_independent s o o' depth
  rw [runSuites_unlimited hplays, runSuites_unlimited hplays'] at halike hstate
  have hscripts : s.scripts sights = s.scripts sights' := hstate
  rw [← hscripts] at hplays'
  refine ⟨s.scripts sights, r, r', ?_, hplays, hplays', ?_⟩
  · rintro ⟨p⟩ hp
    obtain ⟨hmet, hscript⟩ := Settings.mem_scripts.mp hp
    obtain ⟨hbelow, hfile⟩ := htrail.lies_below.1 _ hmet
    exact ⟨hbelow, hfile, hscript⟩
  · cases halike with
    | error reason => exact Or.inr ⟨reason, rfl, rfl⟩
    | @ok t t' =>
        cases hfate with
        | done ht =>
            cases hfate' with
            | done ht' =>
                rw [List.nil_append] at ht ht'
                exact Or.inl ⟨t, t', rfl, rfl, ht, hscripts ▸ ht'⟩

/-- A run that returns totals on some sink has run all of its cases. -/
theorem ran_of_ok {cs : List TestCase} {r : Except Stop Totals}
    (hplays : Walk.Plays (Walk.runSuites (v.machineOf o) s depth)
      (s.casesActs o cs ++ (s.ending r).map .emit) r) {sink : Sink} {t : Totals}
    {session : Session (List TestCase)}
    (hrun : v.runSuites o s depth sink = (.ok t, session)) : r = .ok t ∧ session.state = cs := by
  rw [runSuites, hplays ⟨[], sink⟩] at hrun
  obtain ⟨hr, hperform⟩ := Walk.of_conclude_ok hrun
  obtain ⟨executed, -, hstate, hall⟩ := Walk.exists_state_perform
    (s.casesActs o cs ++ (s.ending r).map .emit) ⟨[], sink⟩
  rw [hperform] at hstate hall
  refine ⟨hr, hstate.trans ?_⟩
  rw [hall rfl]
  simp

/-- **What cases write steers nothing.** Of two runs over the same files whose cases end alike, both
have the same result and run the same cases in the same order; on sinks that may refuse something
this holds of the runs that come to their end. If moreover the output that is shown is the same once
it is decoded, the runs are the same on every sink, and so are the bytes of their reports. -/
theorem output_does_not_steer (v : View) (s : Settings) (o o' : TestCase → Outcome) (depth : Nat)
    (hends : ∀ c, v.IsCase s c → (o c).ending = (o' c).ending) :
    (v.runSuites o s depth .unlimited).1 = (v.runSuites o' s depth .unlimited).1 ∧
    (v.runSuites o s depth .unlimited).2.state = (v.runSuites o' s depth .unlimited).2.state ∧
    (∀ sink sink' t t' session session', v.runSuites o s depth sink = (.ok t, session) →
      v.runSuites o' s depth sink' = (.ok t', session') →
      t = t' ∧ t.exitCode = t'.exitCode ∧ session.state = session'.state) ∧
    ((∀ c, v.IsCase s c → (o c).shown = (o' c).shown) →
      ∀ sink, v.runSuites o s depth sink = v.runSuites o' s depth sink) := by
  obtain ⟨cs, r, r', hcs, hplays, hplays', hboth⟩ := exists_plays_both v s o o' depth
  have hpasses : ∀ c ∈ cs, (o c).passes = (o' c).passes :=
    fun c hc => Outcome.passes_eq_of_ending (hends c (hcs c hc))
  obtain rfl : r = r' := by
    rcases hboth with ⟨t, t', rfl, rfl, ht, ht'⟩ | ⟨reason, rfl, rfl⟩
    · rw [(ht.congr hpasses).unique ht']
    · rfl
  refine ⟨?_, ?_, ?_, fun hshown sink => ?_⟩
  · rw [runSuites_unlimited hplays, runSuites_unlimited hplays']
  · rw [runSuites_unlimited hplays, runSuites_unlimited hplays']
  · intro sink sink' t t' session session' hrun hrun'
    obtain ⟨hr, hstate⟩ := ran_of_ok hplays hrun
    obtain ⟨hr', hstate'⟩ := ran_of_ok hplays' hrun'
    obtain rfl : t = t' := Except.ok.inj (hr.symm.trans hr')
    exact ⟨rfl, rfl, hstate.trans hstate'.symm⟩
  · have hverdicts : ∀ c ∈ cs, s.verdict o c = s.verdict o' c := fun c hc =>
      Outcome.verdict_eq_of_ending (hends c (hcs c hc)) (hshown c (hcs c hc)) s.timeout
    rw [runSuites, hplays ⟨[], sink⟩, runSuites, hplays' ⟨[], sink⟩,
      Settings.casesActs_congr hverdicts]

/-- Cases that end like those of the sample: one passes, one fails and one is late. All of them
write `output`. -/
def sampleWriting (output : Bytes) (c : TestCase) : Outcome :=
  if c.path = .ofText "t/a.lua" then .ok ⟨.exited 0, output, output⟩
  else if c.path = .ofText "t/c.lua" then .ok ⟨.timedOut, output, output⟩
  else .ok ⟨.exited 1, output.take 1, []⟩

/-- On the sample a case that passes and one that is late may write what they want, and of what the
failing one writes only the decoded text matters. -/
theorem output_does_not_steer_sample :
    ∃ depth t session,
      sampleListed.runSuites (sampleWriting [0xFF]) .sample depth .unlimited = (.ok t, session) ∧
      sampleListed.runSuites (sampleWriting (0x80 :: Utf8.encode "[Error] \"\n")) .sample depth
        .unlimited = (.ok t, session) := by
  obtain ⟨t, -, depth, hdepth⟩ := returns_of_end (s := .sample) (sampleWriting [0xFF])
    trail_sampleListed (by decide)
  have hends : ∀ output output' c,
      (sampleWriting output c).ending = (sampleWriting output' c).ending := by
    intro output output' c
    unfold sampleWriting
    split
    · rfl
    · split <;> rfl
  have hshown : ∀ c, (sampleWriting [0xFF] c).shown =
      (sampleWriting (0x80 :: Utf8.encode "[Error] \"\n") c).shown := by
    intro c
    unfold sampleWriting
    split
    · rfl
    · split
      · rfl
      · decide
  obtain ⟨-, -, -, hsame⟩ := output_does_not_steer sampleListed .sample (sampleWriting [0xFF])
    (sampleWriting (0x80 :: Utf8.encode "[Error] \"\n")) depth fun c _ => hends _ _ c
  have hrun := hdepth depth (Nat.le_refl depth)
  exact ⟨depth, t, _, hrun, (hsame (fun c _ => hshown c) .unlimited).symm.trans hrun⟩

end View

end Conformance
