import Conformance.Proofs.Walk.Follows

set_option autoImplicit false

/-! # Runs of all suites

The run of all suites on a view, from an empty log and a given sink: `View.runSuites`. It plays the
acts of the scripts on the trail of the root, and then the summary if it has come to the end of the
trail (`View.exists_plays_runSuites`). On a sink that refuses nothing, the scripts on the trail are
the cases that are run and their reports are what is written (`View.exists_run_unlimited`).

A depth has to be given to every run. `View.Returns` forgets it: a run returns what it ends with
however deep it may go, from some depth on. A run that overflows its counters does not return, and
neither does one that would go on for ever.
-/

namespace Conformance

namespace Settings

variable {s : Settings} {outcome : TestCase → Outcome}

/-! ## What is written -/

/-- What is written for one case: when it starts, and when it has finished. -/
def caseReport (s : Settings) (outcome : TestCase → Outcome) (c : TestCase) : Bytes :=
  Emission.written ((Reporter.ofSettings s).started c) ++
    Emission.written ((Reporter.ofSettings s).finished c (s.verdict outcome c))

def report (s : Settings) (outcome : TestCase → Outcome) (cs : List TestCase) : Bytes :=
  cs.flatMap (s.caseReport outcome)

def summary (s : Settings) (t : Totals) : List Emission :=
  match (Reporter.ofSettings s).summary t with
  | .ok emissions => emissions
  | .error _ => []

/-- What follows the reports of the cases: the summary, if the run has come to its end. -/
def ending (s : Settings) : Except Stop Totals → List Emission
  | .ok t => s.summary t
  | .error _ => []

@[simp] theorem report_nil : s.report outcome [] = [] := rfl

@[simp] theorem report_append (cs ds : List TestCase) :
    s.report outcome (cs ++ ds) = s.report outcome cs ++ s.report outcome ds := by
  simp [report]

@[simp] theorem report_cons (c : TestCase) (cs : List TestCase) :
    s.report outcome (c :: cs) = s.caseReport outcome c ++ s.report outcome cs := by
  simp [report]

theorem casesActs_cons (c : TestCase) (cs : List TestCase) :
    s.casesActs outcome (c :: cs) = s.caseActs outcome c ++ s.casesActs outcome cs := by
  simp [casesActs]

@[simp] theorem written_caseActs (c : TestCase) :
    Act.written (s.caseActs outcome c) = s.caseReport outcome c := by
  simp [caseActs, caseReport]

@[simp] theorem cases_caseActs (c : TestCase) : Act.cases (s.caseActs outcome c) = [c] := by
  simp [caseActs]

@[simp] theorem written_casesActs (cs : List TestCase) :
    Act.written (s.casesActs outcome cs) = s.report outcome cs := by
  induction cs with
  | nil => rfl
  | cons c cs ih => simp [casesActs_cons, ih]

@[simp] theorem cases_casesActs (cs : List TestCase) :
    Act.cases (s.casesActs outcome cs) = cs := by
  induction cs with
  | nil => rfl
  | cons c cs ih => simp [casesActs_cons, ih]

theorem summary_eq {t : Totals} {n k : Nat} (h : t.Counts n k) :
    (Reporter.ofSettings s).summary t = .ok (s.summary t) := by
  unfold summary
  rcases hr : Reporter.ofSettings s with ⟨color, format⟩
  cases format with
  | text => rfl
  | json => simp [Reporter.summary, h.failed.1, Except.map]

end Settings

def Sink.holding (bytes : Bytes) : Sink := ⟨none, false, bytes⟩

namespace View

variable {v : View} {s : Settings} {outcome : TestCase → Outcome}

/-- **The run of all suites on a view**, where each case has the given outcome. The result comes
with the cases that were run and with the sink. -/
def runSuites (v : View) (outcome : TestCase → Outcome) (s : Settings) (depth : Nat)
    (sink : Sink) : Except Stop Totals × Session (List TestCase) :=
  Walk.runSuites (v.machineOf outcome) s depth ⟨[], sink⟩

theorem plays_runSuites {depth : Nat} {cs : List TestCase} {r : Except Stop Totals}
    (hplays : Walk.Plays (Walk.visit (v.machineOf outcome) s depth s.root)
      (s.casesActs outcome cs) r)
    (hcounts : ∀ t, r = .ok t → ∃ n k, t.Counts n k) :
    Walk.Plays (Walk.runSuites (v.machineOf outcome) s depth)
      (s.casesActs outcome cs ++ (s.ending r).map .emit) r := by
  unfold Walk.runSuites
  cases r with
  | error reason =>
      refine .of_eq (.bind_error _ hplays) ?_
      simp [Settings.ending]
  | ok t =>
      obtain ⟨n, k, ht⟩ := hcounts t rfl
      have hsummary : Walk.Plays
          (Walk.orStop .overflow ((Reporter.ofSettings s).summary t)) [] (.ok (s.summary t)) := by
        rw [Settings.summary_eq ht]
        exact .pure _
      refine .of_eq (.bind hplays (.bind hsummary (.bind (.report _) (.pure _)))) ?_
      simp [Settings.ending]

/-- On a sink that refuses nothing, everything that a run plays is written. -/
theorem runSuites_unlimited {depth : Nat} {cs : List TestCase} {r : Except Stop Totals}
    (hplays : Walk.Plays (Walk.runSuites (v.machineOf outcome) s depth)
      (s.casesActs outcome cs ++ (s.ending r).map .emit) r) :
    v.runSuites outcome s depth .unlimited =
      (r, ⟨cs, .holding (s.report outcome cs ++ Emission.written (s.ending r))⟩) := by
  have h := hplays ⟨[], .unlimited⟩
  rw [Sink.unlimited, Walk.perform_of_room _ _ _ _ (by simp)] at h
  rw [View.runSuites, Sink.unlimited, h]
  simp [Walk.conclude, Sink.holding]

/-- **A run plays the acts of the scripts on a trail, and then its ending.** -/
theorem exists_plays_runSuites (v : View) (s : Settings) (outcome : TestCase → Outcome)
    (depth : Nat) :
    ∃ sights last r, v.Trail [.enter s.root] sights last ∧
      Fate v s outcome depth [] sights last r ∧
      Walk.Plays (Walk.runSuites (v.machineOf outcome) s depth)
        (s.casesActs outcome (s.scripts sights) ++ (s.ending r).map .emit) r := by
  obtain ⟨sights, last, r, htrail, hplays, hfate⟩ :=
    Walk.follows_visit v s outcome depth s.root
  refine ⟨sights, last, r, htrail, hfate, plays_runSuites hplays fun t hr => ?_⟩
  subst hr
  cases hfate with
  | done ht => exact ⟨_, _, ht⟩

/-- **What is run and written on a sink that refuses nothing**: the scripts on a trail. -/
theorem exists_run_unlimited (v : View) (s : Settings) (outcome : TestCase → Outcome)
    (depth : Nat) :
    ∃ sights last r, v.Trail [.enter s.root] sights last ∧
      Fate v s outcome depth [] sights last r ∧
      v.runSuites outcome s depth .unlimited =
        (r, ⟨s.scripts sights, .holding (s.report outcome (s.scripts sights) ++
          Emission.written (s.ending r))⟩) := by
  obtain ⟨sights, last, r, htrail, hfate, hplays⟩ := exists_plays_runSuites v s outcome depth
  exact ⟨sights, last, r, htrail, hfate, runSuites_unlimited hplays⟩

/-! ## Runs that return -/

/-- **A run returns `r`**, with the cases run and the sink as they are in `session`: that is what it
ends with at every depth that is large enough. -/
def Returns (v : View) (outcome : TestCase → Outcome) (s : Settings) (sink : Sink)
    (r : Except Error Totals) (session : Session (List TestCase)) : Prop :=
  ∃ bound, ∀ depth, bound ≤ depth →
    v.runSuites outcome s depth sink = (r.mapError .failed, session)

/-- Fewer scripts are met than a word can count. -/
def FewScripts (v : View) (s : Settings) : Prop :=
  ∀ sights last, v.Trail [.enter s.root] sights last → (s.scripts sights).length < UInt64.size

/-- The scripts of all trails are few if those of the stuck one are. -/
theorem fewScripts_of_stuck {sights : List Sight} {last : List Todo}
    (h : v.Trail [.enter s.root] sights last) (hs : v.Stuck last)
    (hfew : (s.scripts sights).length < UInt64.size) : v.FewScripts s := by
  intro more last' h'
  obtain ⟨rest, -, rfl⟩ := h.prefix_of_stuck hs h'
  simp only [Settings.scripts_append, List.length_append] at hfew
  omega

/-- **A stuck trail decides the run**, from the depth of its length on: the run stops before only if
the scripts are too many for its totals. -/
theorem run_of_stuck (outcome : TestCase → Outcome) {sights : List Sight} {last : List Todo}
    (h : v.Trail [.enter s.root] sights last) (hs : v.Stuck last) {depth : Nat}
    (hdepth : sights.length < depth) :
    (∃ r : Except Error Totals, Fate v s outcome depth [] sights last (r.mapError .failed) ∧
      v.runSuites outcome s depth .unlimited =
        (r.mapError .failed, ⟨s.scripts sights, .holding (s.report outcome (s.scripts sights) ++
          Emission.written (s.ending (r.mapError .failed)))⟩)) ∨
      UInt64.size ≤ (s.scripts sights).length ∧
        (v.runSuites outcome s depth .unlimited).1 = .error (.overflow .add) := by
  obtain ⟨sights', last', r, htrail, hfate, hrun⟩ := exists_run_unlimited v s outcome depth
  obtain ⟨rest, hrest, hsights⟩ := h.prefix_of_stuck hs htrail
  have hlength : sights'.length ≤ sights.length := by simp [hsights]
  have hscripts : (s.scripts sights').length ≤ (s.scripts sights).length := by simp [hsights]
  have hsame : v.Stuck last' → sights' = sights ∧ last' = last := h.stuck_unique hs htrail
  -- Where the run has stopped is a beginning of the trail, and all of it unless it stopped early.
  cases hfate with
  | @done t ht =>
      obtain ⟨rfl, rfl⟩ := hsame stuck_nil
      exact Or.inl ⟨.ok t, .done ht, hrun⟩
  | @blocked dir cause others hl =>
      obtain ⟨rfl, rfl⟩ := hsame (stuck_enter others hl)
      exact Or.inl ⟨.error (.discovery dir cause), .blocked others hl, hrun⟩
  | overflow _ hmany =>
      rw [List.nil_append] at hmany
      exact Or.inr ⟨Nat.le_trans hmany hscripts, congrArg Prod.fst hrun⟩
  | tooDeep _ hdeep => omega

/-- **A run whose trail comes to its end returns the totals of its scripts.** -/
theorem returns_of_end (outcome : TestCase → Outcome) {sights : List Sight}
    (h : v.Trail [.enter s.root] sights [])
    (hfew : (s.scripts sights).length < UInt64.size) :
    ∃ t, t.CountsCases outcome (s.scripts sights) ∧
      v.Returns outcome s .unlimited (.ok t) ⟨s.scripts sights,
        .holding (s.report outcome (s.scripts sights) ++ Emission.written (s.summary t))⟩ := by
  have hrun : ∀ depth, sights.length < depth → ∃ t, t.CountsCases outcome (s.scripts sights) ∧
      v.runSuites outcome s depth .unlimited = (.ok t, ⟨s.scripts sights,
        .holding (s.report outcome (s.scripts sights) ++ Emission.written (s.summary t))⟩) := by
    intro depth hdepth
    obtain ⟨r, hfate, hrun⟩ := (run_of_stuck outcome h stuck_nil hdepth).resolve_right
      fun hmany => Nat.not_le_of_lt hfew hmany.1
    cases r with
    | error e => cases hfate
    | ok t =>
        cases hfate with
        | done ht => exact ⟨t, ht, hrun⟩
  obtain ⟨t, ht, -⟩ := hrun (sights.length + 1) (Nat.lt_succ_self _)
  refine ⟨t, ht, sights.length + 1, fun depth hdepth => ?_⟩
  obtain ⟨t', ht', hrun'⟩ := hrun depth hdepth
  obtain rfl := ht.unique ht'
  exact hrun'

/-- **A run whose trail is blocked ends with the error of the directory that blocks it**, without a
summary. -/
theorem run_of_blocked (outcome : TestCase → Outcome) {sights : List Sight} {dir : Path}
    {cause : IoError} {rest : List Todo} (h : v.Trail [.enter s.root] sights (.enter dir :: rest))
    (hl : v.list dir = .error cause) {depth : Nat} (hdepth : sights.length < depth) :
    v.runSuites outcome s depth .unlimited = (.error (.failed (.discovery dir cause)),
        ⟨s.scripts sights, .holding (s.report outcome (s.scripts sights))⟩) ∨
      UInt64.size ≤ (s.scripts sights).length ∧
        (v.runSuites outcome s depth .unlimited).1 = .error (.overflow .add) := by
  rcases run_of_stuck outcome h (stuck_enter rest hl) hdepth with ⟨r, hfate, hrun⟩ | hmany
  · left
    cases r with
    | ok t => cases hfate
    | error e =>
        cases hfate with
        | @blocked _ cause' _ hl' =>
            rw [hl] at hl'
            cases hl'
            rw [hrun]
            simp [Settings.ending, Except.mapError, Emission.written]
  · exact Or.inr hmany

end View

end Conformance
