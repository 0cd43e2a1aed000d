import Conformance.Proofs.Walk.Mirror

set_option autoImplicit false

/-! # A log of a run

A machine can keep a log of the cases that are run on it and of their results (`Machine.logged`). The
log changes nothing about a run (`Walk.runSuites_logged`), and a run that comes to its end is told by it:
every case in the log has a verdict, the totals count these, and what was written are the reports of the
cases, one after the other, and the summary (`Walk.told_of_runSuites`). This holds of every sink, since a
run that a sink refuses something does not come to its end.
-/

namespace Conformance

/-- Cases that were run and their results, in order. -/
abbrev Log := List (TestCase × Except Error Execution)

/-- Cases and the verdicts on them, in order. -/
abbrev Told := List (TestCase × Verdict)

/-- The verdicts on the cases of a log, where there are some. -/
def Log.judged (log : Log) (deadline : Duration) : List (TestCase × Except Error Verdict) :=
  log.map fun (c, result) => (c, classifyRun result deadline)

def Told.judged (told : Told) : List (TestCase × Except Error Verdict) :=
  told.map fun (c, v) => (c, .ok v)

def Told.passes (told : Told) : ℕ := told.countP fun (_, v) => v.isPass

/-- What is written for cases that have a verdict: of each that it starts and that it has finished. -/
def Told.report (r : Reporter) (told : Told) : Bytes :=
  told.flatMap fun (c, v) => Emission.written (r.started c) ++ Emission.written (r.finished c v)

section

variable (told more : Told) (r : Reporter)

@[simp] theorem Told.judged_append : Told.judged (told ++ more) = told.judged ++ more.judged :=
  List.map_append

@[simp] theorem Told.passes_append : Told.passes (told ++ more) = told.passes + more.passes :=
  List.countP_append

@[simp] theorem Told.report_append :
    Told.report r (told ++ more) = told.report r ++ more.report r := List.flatMap_append

end

/-! ## The machine with a log -/

variable {σ : Type}

def Machine.logged (m : Machine σ) : Machine (σ × Log) where
  list dir a := m.list dir a.1
  isDirectory p a := m.isDirectory p a.1
  run c a := ((m.run c a.1).1, (m.run c a.1).2, a.2 ++ [(c, (m.run c a.1).1)])

namespace Walk

variable {m : Machine σ} {s : Settings}

/-- The cases that a run of all suites executes, and their results. -/
def executed (m : Machine σ) (s : Settings) (depth : ℕ) (session : Session σ) : Log :=
  (runSuites m.logged s depth ⟨(session.state, []), session.sink⟩).2.state.2

/-- A run and its logged version mirror each other, and the log keeps what holds of it and of the state
of the machine. -/
theorem mirrors_logged (m : Machine σ) (s : Settings) {I : σ → Log → Prop}
    (hlog : ∀ {a log}, I a log → ∀ c, I (m.run c a).2 (log ++ [(c, (m.run c a).1)])) :
    Mirrors (fun a b => a.state.1 = b.state ∧ a.sink = b.sink ∧ I b.state a.state.2)
      m.logged s m s :=
  mirrors_of_beside ⟨fun _ _ => rfl, fun _ _ => rfl, fun _ _ => rfl, fun _ _ => rfl⟩ s hlog

/-- **A log changes nothing about a run.** -/
theorem runSuites_logged (m : Machine σ) (s : Settings) (depth : ℕ) (session : Session σ) (log : Log) :
    (runSuites m.logged s depth ⟨(session.state, log), session.sink⟩).1 =
        (runSuites m s depth session).1 ∧
      (runSuites m.logged s depth ⟨(session.state, log), session.sink⟩).2.state.1 =
        (runSuites m s depth session).2.state ∧
      (runSuites m.logged s depth ⟨(session.state, log), session.sink⟩).2.sink =
        (runSuites m s depth session).2.sink := by
  have hmirrors := mirrors_logged m s (I := fun _ _ => True) fun _ _ => trivial
  obtain ⟨hresult, ⟨hstate, hsink, -⟩, -⟩ := same_runSuites hmirrors depth
    ⟨(session.state, log), session.sink⟩ session ⟨rfl, rfl, trivial⟩
  exact ⟨hresult, hstate, hsink⟩

/-- On a view the log has the cases that were run, each with its one result. -/
theorem executed_machine (v : View) (results : TestCase → Except Error Execution) (s : Settings)
    (depth : ℕ) (sink : Sink) :
    executed (v.machine results) s depth ⟨[], sink⟩ =
      (runSuites (v.machine results) s depth ⟨[], sink⟩).2.state.map fun c => (c, results c) := by
  have hlog : ∀ {ran : List TestCase} {log : Log}, log = ran.map (fun c => (c, results c)) → ∀ c,
      log ++ [(c, results c)] = (ran ++ [c]).map fun c => (c, results c) := by
    rintro ran _ rfl c
    rw [List.map_append, List.map_singleton]
  have hmirrors := mirrors_logged (v.machine results) s
    (I := fun ran log => log = ran.map fun c => (c, results c)) hlog
  obtain ⟨-, ⟨-, -, hI⟩, -⟩ := same_runSuites hmirrors depth ⟨([], []), sink⟩ ⟨[], sink⟩
    ⟨rfl, rfl, rfl⟩
  exact hI

end Walk

/-! ## What is written without a refusal -/

theorem Sink.held_of_performAll {emissions : List Emission} {sink sink' : Sink}
    (h : sink.performAll emissions = (.ok (), sink')) :
    sink'.held = sink.held ++ Emission.written emissions := by
  induction emissions generalizing sink with
  | nil =>
      cases h
      exact (List.append_nil _).symm
  | cons e rest ih =>
      rw [performAll] at h
      rcases hperform : sink.perform e with ⟨error | ⟨⟩, between⟩
      · rw [hperform] at h
        cases h
      · rw [hperform] at h
        have hfirst : between.held = sink.held ++ e.bytes := by
          cases e with
          | flush =>
              have hsink : sink = between := congrArg Prod.snd hperform
              rw [← hsink]
              exact (List.append_nil _).symm
          | write part text =>
              -- A text that was not taken as a whole would have been an error.
              by_cases hfits : (sink.fitting (Utf8.encode text)).length = (Utf8.encode text).length
              · have htaken : sink.fitting (Utf8.encode text) = Utf8.encode text := by
                  refine List.IsPrefix.eq_of_length ?_ hfits
                  unfold fitting
                  split
                  · exact List.prefix_refl _
                  · exact List.take_prefix _ _
                rw [perform, push, if_pos hfits, htaken] at hperform
                cases hperform
                rfl
              · rw [perform, push, if_neg hfits] at hperform
                cases hperform
        have hrest := ih h
        rw [hrest, hfirst, List.append_assoc]
        rfl

namespace Walk

variable {α β : Type} {m : Machine σ} {s : Settings}

/-- A walk that comes to a value has come through its first part. -/
theorem exists_of_bind_eq_ok {x : Walk σ α} {f : α → Walk σ β} {a b : Session σ} {value : β}
    (h : (x >>= f) a = (.ok value, b)) :
    ∃ first between, x a = (.ok first, between) ∧ f first between = (.ok value, b) := by
  rcases hrun : x a with ⟨reason | first, between⟩
  · rw [bind_of_error f hrun] at h
    cases h
  · exact ⟨first, between, rfl, by rw [← h, bind_of_ok f hrun]⟩

theorem of_orStop_eq_ok {ε : Type} {reason : ε → Stop} {r : Except ε α} {a b : Session σ} {value : α}
    (h : orStop reason r a = (.ok value, b)) : r = .ok value ∧ b = a := by
  cases r with
  | error e => cases h
  | ok value' =>
      cases h
      exact ⟨rfl, rfl⟩

theorem of_report_eq_ok {emissions : List Emission} {a b : Session σ}
    (h : report emissions a = (.ok (), b)) :
    b.state = a.state ∧ b.sink.held = a.sink.held ++ Emission.written emissions := by
  simp only [report] at h
  rcases hperform : a.sink.performAll emissions with ⟨e | ⟨⟩, sink⟩
  · rw [hperform] at h
    cases h
  · rw [hperform] at h
    cases h
    exact ⟨rfl, Sink.held_of_performAll hperform⟩

/-! ## Runs that come to their end -/

/-- **The walk is told by its log** if it comes to totals, of which `n` cases, `k` of them passed, were
counted before: by cases with verdicts that it logs, reports and counts. -/
def ToldByLog (s : Settings) (x : Walk (σ × Log) Totals) (n k : ℕ) : Prop :=
  ∀ a t b, x a = (.ok t, b) → ∃ told : Told,
    b.state.2.judged s.timeout = a.state.2.judged s.timeout ++ told.judged ∧
    b.sink.held = a.sink.held ++ told.report (Reporter.ofSettings s) ∧
    t.Counts (n + told.length) (k + told.passes)

theorem told_of_runCase {c : TestCase} {a b : Session (σ × Log)} {passed : Bool}
    (h : runCase m.logged s c a = (.ok passed, b)) : ∃ v : Verdict, passed = v.isPass ∧
      b.state.2.judged s.timeout = a.state.2.judged s.timeout ++ [(c, .ok v)] ∧
      b.sink.held = a.sink.held ++ Told.report (Reporter.ofSettings s) [(c, v)] := by
  obtain ⟨⟨⟩, announced, hstarted, hattempts⟩ := exists_of_bind_eq_ok h
  obtain ⟨result, ran, hattempt, hverdicts⟩ := exists_of_bind_eq_ok hattempts
  obtain ⟨v, judged, hverdict, hreports⟩ := exists_of_bind_eq_ok hverdicts
  obtain ⟨⟨⟩, reported, hfinished, hpasses⟩ := exists_of_bind_eq_ok hreports
  obtain ⟨hannounced, hheld⟩ := of_report_eq_ok hstarted
  obtain ⟨hclassify, rfl⟩ := of_orStop_eq_ok hverdict
  obtain ⟨hreported, hheld'⟩ := of_report_eq_ok hfinished
  cases hattempt
  cases hpasses
  refine ⟨v, rfl, ?_, ?_⟩
  · rw [hreported, ← hclassify, hannounced]
    simp [Log.judged]
  · rw [hheld', hheld]
    simp [Told.report]

theorem toldByLog_visitPath {enter : Path → Walk (σ × Log) Totals}
    (henter : ∀ dir, ToldByLog s (enter dir) 0 0) {t : Totals} {n k : ℕ} (ht : t.Counts n k)
    (p : Path) : ToldByLog s (visitPath m.logged s enter t p) n k := by
  intro a u b h
  obtain ⟨directory, asked, hask, hvisit⟩ := exists_of_bind_eq_ok h
  cases hask
  split at hvisit
  · obtain ⟨inner, left, hinner, hsum⟩ := exists_of_bind_eq_ok hvisit
    obtain ⟨hadd, rfl⟩ := of_orStop_eq_ok hsum
    obtain ⟨told, hlog, hheld, hcounts⟩ := henter p _ _ _ hinner
    rw [Nat.zero_add, Nat.zero_add] at hcounts
    obtain ⟨u', hu', hsum⟩ | ⟨-, herror⟩ := ht.add hcounts
    · cases hadd.symm.trans hu'
      exact ⟨told, hlog, hheld, hsum⟩
    · cases hadd.symm.trans herror
  split at hvisit
  · obtain ⟨passed, left, hcase, hsum⟩ := exists_of_bind_eq_ok hvisit
    obtain ⟨hrecord, rfl⟩ := of_orStop_eq_ok hsum
    obtain ⟨v, rfl, hlog, hheld⟩ := told_of_runCase hcase
    refine ⟨[(⟨p⟩, v)], hlog, hheld, ?_⟩
    obtain ⟨u', hu', hsum⟩ | ⟨-, herror⟩ := ht.record v.isPass
    · cases hrecord.symm.trans hu'
      have hpasses : Told.passes [(⟨p⟩, v)] = v.isPass.toNat := by
        cases hv : v.isPass <;> simp [Told.passes, hv]
      rw [hpasses]
      exact hsum
    · cases hrecord.symm.trans herror
  · cases hvisit
    exact ⟨[], by simp [Told.judged], by simp [Told.report], ht⟩

theorem toldByLog_visitPaths {enter : Path → Walk (σ × Log) Totals}
    (henter : ∀ dir, ToldByLog s (enter dir) 0 0) (ps : List Path) {t : Totals} {n k : ℕ}
    (ht : t.Counts n k) : ToldByLog s (visitPaths m.logged s enter t ps) n k := by
  induction ps generalizing t n k with
  | nil =>
      intro a u b h
      cases h
      exact ⟨[], by simp [Told.judged], by simp [Told.report], ht⟩
  | cons p ps ih =>
      intro a u b h
      obtain ⟨t', left, hfirst, hrest⟩ := exists_of_bind_eq_ok h
      obtain ⟨told, hlog, hheld, hcounts⟩ := toldByLog_visitPath henter ht p _ _ _ hfirst
      obtain ⟨more, hlog', hheld', hcounts'⟩ := ih hcounts _ _ _ hrest
      refine ⟨told ++ more, ?_, ?_, ?_⟩
      · rw [hlog', hlog, Told.judged_append, List.append_assoc]
      · rw [hheld', hheld, Told.report_append, List.append_assoc]
      · rw [List.length_append, Told.passes_append, ← Nat.add_assoc, ← Nat.add_assoc]
        exact hcounts'

theorem toldByLog_visit (m : Machine σ) (s : Settings) (depth : ℕ) (dir : Path) :
    ToldByLog s (visit m.logged s depth dir) 0 0 := by
  induction depth generalizing dir with
  | zero => exact fun _ _ _ h => nomatch h
  | succ depth ih =>
      intro a u b h
      obtain ⟨listing, asked, hask, hlisted⟩ := exists_of_bind_eq_ok h
      obtain ⟨names, left, hnames, hvisit⟩ := exists_of_bind_eq_ok hlisted
      obtain ⟨-, rfl⟩ := of_orStop_eq_ok hnames
      cases hask
      exact toldByLog_visitPaths ih _ Totals.counts_zero _ _ _ hvisit

/-- **A run that comes to its end is told by what it has executed.** Every case has a verdict, the totals
count these, and what was written are the reports of the cases and the summary. -/
theorem told_of_runSuites {depth : ℕ} {a b : Session σ} {t : Totals}
    (h : runSuites m s depth a = (.ok t, b)) : ∃ (told : Told) (emissions : List Emission),
      (executed m s depth a).judged s.timeout = told.judged ∧
      t.Counts told.length told.passes ∧
      (Reporter.ofSettings s).summary t = .ok emissions ∧
      b.sink.held =
        a.sink.held ++ (told.report (Reporter.ofSettings s) ++ Emission.written emissions) := by
  obtain ⟨hresult, -, hsink⟩ := runSuites_logged m s depth a []
  rcases hrun : runSuites m.logged s depth ⟨(a.state, []), a.sink⟩ with ⟨r, end_⟩
  rw [hrun, h] at hresult hsink
  obtain rfl : r = .ok t := hresult
  obtain ⟨t', left, hvisit, hend⟩ := exists_of_bind_eq_ok hrun
  obtain ⟨emissions, between, hsummary, hreports⟩ := exists_of_bind_eq_ok hend
  obtain ⟨⟨⟩, reported, hreport, htotals⟩ := exists_of_bind_eq_ok hreports
  obtain ⟨hemissions, rfl⟩ := of_orStop_eq_ok hsummary
  obtain ⟨hstate, hheld⟩ := of_report_eq_ok hreport
  cases htotals
  obtain ⟨told, hlog, hheld', hcounts⟩ := toldByLog_visit m s depth s.root _ _ _ hvisit
  rw [Nat.zero_add, Nat.zero_add] at hcounts
  refine ⟨told, emissions, ?_, hcounts, hemissions, ?_⟩
  · rw [executed, hrun, hstate, hlog]
    rfl
  · rw [← hsink, hheld, hheld', List.append_assoc]

end Walk

end Conformance
