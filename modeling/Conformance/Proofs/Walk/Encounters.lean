import Conformance.Proofs.Walk.Listings
import Conformance.Proofs.Walk.Run

set_option autoImplicit false

/-! # What a walk meets while the files change

A case that is run may change the files that the walk has still to visit, so that a trail of the
files as they were says nothing about it. What a walk meets on a machine is told along with the
states that it passes through (`Machine.Meets`): directories, each with its listing, and scripts,
each with the verdict on it, up to the first that ends the run with an error.

A machine leaves no choice in this (`Machine.Meets.unique`), and a walk that may go as deep as the
path names of the machine are long meets something to the end (`Walk.exists_meets_visit`). What the
walk returns and what it writes on a sink that refuses nothing are told by the encounters alone
(`Machine.Tells`).
-/

namespace Conformance

inductive Encounter where
  | directory (dir : Path) (listing : Except IoError (List Bytes))
  | script (c : TestCase) (verdict : Except Error Verdict)

namespace Encounter

/-- The error that ends a run, if the encounter is one that does. -/
def error? : Encounter → Option Error
  | .directory dir (.error cause) => some (.discovery dir cause)
  | .script _ (.error e) => some e
  | _ => none

def verdict? : Encounter → Option Verdict
  | .script _ (.ok verdict) => some verdict
  | _ => none

/-- A directory that was listed, or a script that passed. -/
inductive Fine : Encounter → Prop
  | listed (dir : Path) (names : List Bytes) : Fine (.directory dir (.ok names))
  | passed (c : TestCase) : Fine (.script c (.ok .passed))

/-- What is written about an encounter on a sink that refuses nothing. A script is announced before
it is run, whatever comes of it. -/
def report (s : Settings) : Encounter → Bytes
  | .directory _ _ => []
  | .script c verdict =>
    Emission.written ((Reporter.ofSettings s).started c) ++
      match verdict with
      | .ok verdict => Emission.written ((Reporter.ofSettings s).finished c verdict)
      | .error _ => []

def firstError? (es : List Encounter) : Option Error := es.findSome? error?

def verdicts (es : List Encounter) : List Verdict := es.filterMap verdict?

def reports (s : Settings) (es : List Encounter) : Bytes := es.flatMap (report s)

def passes (es : List Encounter) : Nat := (verdicts es).countP Verdict.isPass

section

variable {es es' : List Encounter} {s : Settings}

@[simp] theorem verdicts_append : verdicts (es ++ es') = verdicts es ++ verdicts es' :=
  List.filterMap_append

@[simp] theorem passes_append : passes (es ++ es') = passes es + passes es' := by
  simp [passes]

@[simp] theorem reports_append : reports s (es ++ es') = reports s es ++ reports s es' :=
  List.flatMap_append

theorem firstError?_append (h : firstError? es = none) :
    firstError? (es ++ es') = firstError? es' := by
  rw [firstError?] at h
  rw [firstError?, List.findSome?_append, h, Option.none_or, firstError?]

/-- All is well if and only if there was no error and every verdict is that a script passed. -/
theorem forall_fine_iff :
    (∀ x ∈ es, x.Fine) ↔ firstError? es = none ∧ passes es = (verdicts es).length := by
  have hpasses : passes es = (verdicts es).length ↔ ∀ v ∈ verdicts es, v.isPass = true :=
    List.countP_eq_length
  rw [hpasses, firstError?, List.findSome?_eq_none_iff]
  simp only [verdicts, List.mem_filterMap]
  constructor
  · intro h
    refine ⟨fun x hx => ?_, ?_⟩
    · cases h x hx <;> rfl
    · rintro v ⟨x, hx, hv⟩
      cases h x hx with
      | listed => cases hv
      | passed c =>
          cases hv
          rfl
  · rintro ⟨herror, hpass⟩ x hx
    match x, herror x hx with
    | .directory dir (.ok names), _ => exact .listed dir names
    | .script c (.ok verdict), _ =>
        have hv := hpass verdict ⟨_, hx, rfl⟩
        cases verdict with
        | passed => exact .passed c
        | failed failure => cases hv

end

end Encounter

open Encounter (firstError? verdicts passes reports)

/-! ## Meeting things -/

section

variable {σ : Type}

/-- **What a walk meets**, in order, and the state that it leaves behind. It goes on as long as
there is something to be done and no error. -/
inductive Machine.Meets (m : Machine σ) (s : Settings) :
    σ → List Todo → List Encounter → σ → Prop
  | done (state : σ) : Meets m s state [] [] state
  | blocked {state : σ} {dir : Path} {cause : IoError} (rest : List Todo) :
      m.list dir state = .error cause →
      Meets m s state (.enter dir :: rest) [.directory dir (.error cause)] state
  | enter {state state' : σ} {dir : Path} {names : List Bytes} {rest : List Todo}
      {es : List Encounter} :
      m.list dir state = .ok names →
      Meets m s state ((Walk.entryPaths dir names).map .look ++ rest) es state' →
      Meets m s state (.enter dir :: rest) (.directory dir (.ok names) :: es) state'
  | descend {state state' : σ} {p : Path} {rest : List Todo} {es : List Encounter} :
      m.isDirectory p state = true → Meets m s state (.enter p :: rest) es state' →
      Meets m s state (.look p :: rest) es state'
  | pass {state state' : σ} {p : Path} {rest : List Todo} {es : List Encounter} :
      m.isDirectory p state = false → s.isScript p = false → Meets m s state rest es state' →
      Meets m s state (.look p :: rest) es state'
  | run {state after state' : σ} {p : Path} {result : Except Error Execution} {verdict : Verdict}
      {rest : List Todo} {es : List Encounter} :
      m.isDirectory p state = false → s.isScript p = true → m.run ⟨p⟩ state = (result, after) →
      classifyRun result s.timeout = .ok verdict → Meets m s after rest es state' →
      Meets m s state (.look p :: rest) (.script ⟨p⟩ (.ok verdict) :: es) state'
  | broken {state after : σ} {p : Path} {result : Except Error Execution} {e : Error}
      (rest : List Todo) :
      m.isDirectory p state = false → s.isScript p = true → m.run ⟨p⟩ state = (result, after) →
      classifyRun result s.timeout = .error e →
      Meets m s state (.look p :: rest) [.script ⟨p⟩ (.error e)] after

namespace Machine.Meets

variable {m : Machine σ} {s : Settings} {state state' state'' : σ} {todos rest : List Todo}
  {es es' : List Encounter}

/-- **What a walk meets depends on the machine only.** -/
theorem unique (h : m.Meets s state todos es state') (h' : m.Meets s state todos es' state'') :
    es = es' ∧ state' = state'' := by
  -- Two encounters of different kinds would need two answers to one question.
  induction h generalizing es' with
  | done =>
      cases h'
      exact ⟨rfl, rfl⟩
  | blocked _ hl =>
      cases h' with
      | blocked _ hl' =>
          cases hl.symm.trans hl'
          exact ⟨rfl, rfl⟩
      | enter hl' _ => cases hl.symm.trans hl'
  | enter hl _ ih =>
      cases h' with
      | blocked _ hl' => cases hl.symm.trans hl'
      | enter hl' h' =>
          cases hl.symm.trans hl'
          obtain ⟨rfl, rfl⟩ := ih h'
          exact ⟨rfl, rfl⟩
  | descend hd _ ih =>
      cases h' with
      | descend _ h' => exact ih h'
      | pass hd' | run hd' | broken _ hd' => cases hd.symm.trans hd'
  | pass hd hs _ ih =>
      cases h' with
      | descend hd' _ => cases hd.symm.trans hd'
      | pass _ _ h' => exact ih h'
      | run _ hs' | broken _ _ hs' => cases hs.symm.trans hs'
  | run hd hs hr hv _ ih =>
      cases h' with
      | descend hd' _ => cases hd.symm.trans hd'
      | pass _ hs' _ => cases hs.symm.trans hs'
      | run _ _ hr' hv' h' =>
          cases hr.symm.trans hr'
          cases hv.symm.trans hv'
          obtain ⟨rfl, rfl⟩ := ih h'
          exact ⟨rfl, rfl⟩
      | broken _ _ _ hr' hv' =>
          cases hr.symm.trans hr'
          cases hv.symm.trans hv'
  | broken _ hd hs hr hv =>
      cases h' with
      | descend hd' _ => cases hd.symm.trans hd'
      | pass _ hs' _ => cases hs.symm.trans hs'
      | run _ _ hr' hv' _ =>
          cases hr.symm.trans hr'
          cases hv.symm.trans hv'
      | broken _ _ _ hr' hv' =>
          cases hr.symm.trans hr'
          cases hv.symm.trans hv'
          exact ⟨rfl, rfl⟩

/-- A walk that has met no error goes on with what else is to be done. -/
theorem append (h : m.Meets s state todos es state') (hfine : firstError? es = none)
    (hrest : m.Meets s state' rest es' state'') :
    m.Meets s state (todos ++ rest) (es ++ es') state'' := by
  induction h with
  | done => exact hrest
  | blocked _ _ => cases hfine
  | enter hl _ ih =>
      have hall := ih hfine hrest
      rw [List.append_assoc] at hall
      exact .enter hl hall
  | descend hd _ ih => exact .descend hd (ih hfine hrest)
  | pass hd hs _ ih => exact .pass hd hs (ih hfine hrest)
  | run hd hs hr hv _ ih => exact .run hd hs hr hv (ih hfine hrest)
  | broken _ _ _ _ _ => cases hfine

theorem append_of_error (h : m.Meets s state todos es state') {e : Error}
    (herror : firstError? es = some e) (rest : List Todo) :
    m.Meets s state (todos ++ rest) es state' := by
  induction h with
  | done => cases herror
  | blocked _ hl => exact .blocked _ hl
  | enter hl _ ih =>
      have hall := ih herror
      rw [List.append_assoc] at hall
      exact .enter hl hall
  | descend hd _ ih => exact .descend hd (ih herror)
  | pass hd hs _ ih => exact .pass hd hs (ih herror)
  | run hd hs hr hv _ ih => exact .run hd hs hr hv (ih herror)
  | broken _ hd hs hr hv => exact .broken _ hd hs hr hv

end Machine.Meets

end

/-- **On files that stay as they are, a walk meets what is on its trail**, and then goes on. -/
theorem View.Trail.exists_meets {v : View} {s : Settings} {outcome : TestCase → Outcome}
    {todos last : List Todo} {sights : List Sight} (h : v.Trail todos sights last)
    {ran state' : List TestCase} {es' : List Encounter}
    (hlast : (v.machineOf outcome).Meets s (ran ++ s.scripts sights) last es' state') :
    ∃ es, firstError? es = none ∧ verdicts es = (s.scripts sights).map (s.verdict outcome) ∧
      (v.machineOf outcome).Meets s ran todos (es ++ es') state' := by
  induction h generalizing ran with
  | refl todos => exact ⟨[], rfl, rfl, by simpa using hlast⟩
  | cons hs _ ih =>
      rcases step_cases hs with ⟨dir, names, rest, rfl, hl, rfl, rfl⟩ |
        ⟨p, rest, rfl, hd, rfl, rfl⟩ | ⟨p, rest, rfl, hd, rfl, rfl⟩
      · obtain ⟨es, hfine, hverdicts, hmeets⟩ := ih hlast
        exact ⟨.directory dir (.ok names) :: es, hfine, hverdicts, .enter hl hmeets⟩
      · obtain ⟨es, hfine, hverdicts, hmeets⟩ := ih hlast
        exact ⟨es, hfine, hverdicts, .descend hd hmeets⟩
      · rw [Settings.scripts_append, Settings.scripts_file] at hlast ⊢
        cases hscript : s.isScript p with
        | false =>
            rw [hscript] at hlast
            obtain ⟨es, hfine, hverdicts, hmeets⟩ := ih hlast
            exact ⟨es, hfine, hverdicts, .pass hd hscript hmeets⟩
        | true =>
            rw [hscript, if_pos rfl, ← List.append_assoc] at hlast
            obtain ⟨es, hfine, hverdicts, hmeets⟩ := ih hlast
            refine ⟨.script ⟨p⟩ (.ok (s.verdict outcome ⟨p⟩)) :: es, hfine, ?_, .run hd hscript rfl
              (Outcome.classifyRun_result _ _) hmeets⟩
            simpa [verdicts, Encounter.verdict?] using hverdicts

/-! ## What a walk returns and writes -/

theorem Sink.performAll_holding (emissions : List Emission) (bytes : Bytes) :
    (holding bytes).performAll emissions =
      (.ok (), holding (bytes ++ Emission.written emissions)) := by
  have hroom := Walk.perform_of_room (emissions.map .emit) none [] bytes (by simp)
  rw [Walk.perform_emissions, Act.cases_map_emit, Act.written_map_emit, Prod.mk.injEq,
    Session.mk.injEq] at hroom
  obtain ⟨hok, -, hsink⟩ := hroom
  exact Prod.ext hok hsink

/-- **The result of a walk that has met `es`**, if `n` scripts of which `k` have passed were counted
before. -/
inductive Encounter.Result (n k : Nat) (es : List Encounter) : Except Stop Totals → Prop
  | totals {t : Totals} : firstError? es = none →
      t.Counts (n + (verdicts es).length) (k + passes es) → Result n k es (.ok t)
  | error {e : Error} : firstError? es = some e → Result n k es (.error (.failed e))

namespace Walk

open Encounter (Result)

variable {σ : Type} {m : Machine σ} {s : Settings} {state state' : σ} {es : List Encounter}

/-- **The walk `x` is told by what it meets**: the result and what is written on a sink that refuses
nothing, unless there are more scripts than a word can count. -/
def ToldBy (s : Settings) (x : Walk σ Totals) (n k : Nat) (state : σ) (es : List Encounter)
    (state' : σ) : Prop :=
  n + (verdicts es).length < UInt64.size → ∃ r, Result n k es r ∧
    ∀ bytes, x ⟨state, .holding bytes⟩ = (r, ⟨state', .holding (bytes ++ reports s es)⟩)

theorem report_holding (emissions : List Emission) (bytes : Bytes) :
    report emissions ⟨state, .holding bytes⟩ =
      (.ok (), ⟨state, .holding (bytes ++ Emission.written emissions)⟩) := by
  simp only [report, Sink.performAll_holding]
  rfl

/-- **Running a case** announces it, and reports it if there is a verdict. -/
theorem runCase_holding {c : TestCase} {result : Except Error Execution}
    (hrun : m.run c state = (result, state')) (bytes : Bytes) :
    runCase m s c ⟨state, .holding bytes⟩ =
      (((classifyRun result s.timeout).map Verdict.isPass).mapError .failed, ⟨state',
        .holding (bytes ++ Encounter.report s (.script c (classifyRun result s.timeout)))⟩) := by
  have hattempt : ∀ sink, attempt m c ⟨state, sink⟩ = (.ok result, ⟨state', sink⟩) := by
    intro sink
    simp only [attempt, hrun]
  unfold runCase
  rw [bind_of_ok _ (report_holding _ bytes), bind_of_ok _ (hattempt _)]
  cases classifyRun result s.timeout with
  | error e =>
      rw [Encounter.report, List.append_nil]
      rfl
  | ok verdict =>
      have hstop : ∀ session : Session σ,
          orStop .failed (.ok verdict : Except Error Verdict) session = (.ok verdict, session) :=
        fun _ => rfl
      rw [bind_of_ok _ (hstop _), bind_of_ok _ (report_holding _ _), List.append_assoc]
      rfl

/-! ### One walk after the other -/

namespace ToldBy

variable {x y : Walk σ Totals} {n k : Nat} {f : Totals → Walk σ Totals}

theorem congr (h : ∀ sink, x ⟨state, sink⟩ = y ⟨state, sink⟩)
    (hy : ToldBy s y n k state es state') : ToldBy s x n k state es state' := by
  intro hfew
  obtain ⟨r, hr, hrun⟩ := hy hfew
  exact ⟨r, hr, fun bytes => (h _).trans (hrun bytes)⟩

theorem bind_of_error (hx : ToldBy s x n k state es state') {e : Error}
    (herror : firstError? es = some e) : ToldBy s (x >>= f) n k state es state' := by
  intro hfew
  obtain ⟨r, hr, hrun⟩ := hx hfew
  cases hr with
  | totals hfine _ => cases herror.symm.trans hfine
  | error herror' => exact ⟨_, .error herror', fun bytes => Walk.bind_of_error f (hrun bytes)⟩

/-- **One walk after the other** is told by what both of them meet. -/
theorem bind (hx : ToldBy s x n k state es state') (hfine : firstError? es = none)
    {es' : List Encounter} {state'' : σ}
    (hf : ∀ t, t.Counts (n + (verdicts es).length) (k + passes es) →
      ToldBy s (f t) (n + (verdicts es).length) (k + passes es) state' es' state'') :
    ToldBy s (x >>= f) n k state (es ++ es') state'' := by
  intro hfew
  rw [Encounter.verdicts_append, List.length_append] at hfew
  obtain ⟨r, hr, hrun⟩ := hx (by omega)
  cases hr with
  | error herror => cases hfine.symm.trans herror
  | totals _ hcounts =>
      obtain ⟨r', hr', hrun'⟩ := hf _ hcounts (by omega)
      refine ⟨r', ?_, fun bytes => ?_⟩
      · cases hr' with
        | totals hfine' hcounts' =>
            refine .totals ((Encounter.firstError?_append hfine).trans hfine') ?_
            simpa [Nat.add_assoc] using hcounts'
        | error herror => exact .error ((Encounter.firstError?_append hfine).trans herror)
      · rw [Walk.bind_of_ok _ (hrun bytes), hrun', Encounter.reports_append, List.append_assoc]

theorem add (hx : ToldBy s x 0 0 state es state') {t : Totals} (ht : t.Counts n k) :
    ToldBy s (x >>= fun inner => orStop .overflow (t.add inner)) n k state es state' := by
  intro hfew
  obtain ⟨r, hr, hrun⟩ := hx (by omega)
  cases hr with
  | error herror => exact ⟨_, .error herror, fun bytes => Walk.bind_of_error _ (hrun bytes)⟩
  | totals hfine hinner =>
      rw [Nat.zero_add, Nat.zero_add] at hinner
      -- The sum fits, because the scripts are few.
      obtain ⟨u, hu, hcounts⟩ := (ht.add hinner).resolve_right (by omega)
      refine ⟨.ok u, .totals hfine hcounts, fun bytes => ?_⟩
      rw [Walk.bind_of_ok _ (hrun bytes), hu]
      rfl

theorem record {c : TestCase} {result : Except Error Execution}
    (hrun : m.run c state = (result, state')) {t : Totals} (ht : t.Counts n k) :
    ToldBy s (runCase m s c >>= fun passed => orStop .overflow (t.record passed)) n k state
      [.script c (classifyRun result s.timeout)] state' := by
  intro hfew
  have hcase := runCase_holding (s := s) hrun
  cases hverdict : classifyRun result s.timeout with
  | error e =>
      rw [hverdict] at hcase
      refine ⟨_, .error rfl, fun bytes => (Walk.bind_of_error _ (hcase bytes)).trans ?_⟩
      simp [reports]
  | ok verdict =>
      rw [hverdict] at hcase hfew
      -- One more script still fits.
      have hone : n + 1 < UInt64.size := hfew
      have hpasses : passes [.script c (.ok verdict)] = verdict.isPass.toNat := by
        cases verdict <;> rfl
      obtain ⟨u, hu, hcounts⟩ := (ht.record verdict.isPass).resolve_right (by omega)
      refine ⟨.ok u, .totals rfl (hpasses ▸ hcounts), fun bytes => ?_⟩
      rw [Walk.bind_of_ok _ (hcase bytes), hu]
      simp [reports, orStop, Pure.pure]

end ToldBy

/-! ### Paths -/

/-- What a walk does at a path depends on what the path leads to. -/
theorem visitPath_apply (enter : Path → Walk σ Totals) (t : Totals) (p : Path)
    (session : Session σ) :
    visitPath m s enter t p session =
      if m.isDirectory p session.state then
        (enter p >>= fun inner => orStop .overflow (t.add inner)) session
      else if s.isScript p then
        (runCase m s ⟨p⟩ >>= fun passed => orStop .overflow (t.record passed)) session
      else (.ok t, session) := by
  have hask : ask (m.isDirectory p) session = (.ok (m.isDirectory p session.state), session) := rfl
  unfold visitPath
  rw [bind_of_ok _ hask]
  cases m.isDirectory p session.state with
  | true => rfl
  | false => cases s.isScript p <;> rfl

/-- **At a path a walk meets something**, if it does so in a directory that the path leads to. -/
theorem exists_meets_visitPath {enter : Path → Walk σ Totals} {p : Path}
    (henter : m.isDirectory p state = true → ∃ es state', m.Meets s state [.enter p] es state' ∧
      ToldBy s (enter p) 0 0 state es state') :
    ∃ es state', m.Meets s state [.look p] es state' ∧ ∀ t n k, t.Counts n k →
      ToldBy s (visitPath m s enter t p) n k state es state' := by
  cases hd : m.isDirectory p state with
  | true =>
      obtain ⟨es, state', hmeets, htold⟩ := henter hd
      refine ⟨es, state', .descend hd hmeets, fun t n k ht => (htold.add ht).congr fun sink => ?_⟩
      rw [visitPath_apply, if_pos hd]
  | false =>
      have hfile : ¬ m.isDirectory p state = true := by simp [hd]
      cases hs : s.isScript p with
      | false =>
          refine ⟨[], state, .pass hd hs (.done state), fun t n k ht _ =>
            ⟨.ok t, .totals rfl ht, fun bytes => ?_⟩⟩
          rw [visitPath_apply, if_neg hfile, if_neg (by simp [hs])]
          simp [reports]
      | true =>
          rcases hr : m.run ⟨p⟩ state with ⟨result, after⟩
          have hmeets : m.Meets s state [.look p] [.script ⟨p⟩ (classifyRun result s.timeout)]
              after := by
            cases hv : classifyRun result s.timeout with
            | error e => exact .broken [] hd hs hr hv
            | ok verdict => exact .run hd hs hr hv (.done after)
          refine ⟨_, after, hmeets, fun t n k ht => (ToldBy.record hr ht).congr fun sink => ?_⟩
          rw [visitPath_apply, if_neg hfile, if_pos hs]

theorem exists_meets_visitPaths {enter : Path → Walk σ Totals} {ps : List Path}
    (henter : ∀ p ∈ ps, ∀ state, m.isDirectory p state = true → ∃ es state',
      m.Meets s state [.enter p] es state' ∧ ToldBy s (enter p) 0 0 state es state')
    (state : σ) :
    ∃ es state', m.Meets s state (ps.map .look) es state' ∧ ∀ t n k, t.Counts n k →
      ToldBy s (visitPaths m s enter t ps) n k state es state' := by
  induction ps generalizing state with
  | nil =>
      refine ⟨[], state, .done state, fun t n k ht _ => ⟨.ok t, .totals rfl ht, fun bytes => ?_⟩⟩
      simp [visitPaths, reports, pure]
  | cons p ps ih =>
      obtain ⟨es, after, hmeets, htold⟩ := exists_meets_visitPath (henter p (by simp) state)
      -- The other paths are visited in the state that the first one leaves behind, if at all.
      cases hfirst : firstError? es with
      | some e =>
          exact ⟨es, after, hmeets.append_of_error hfirst _, fun t n k ht =>
            (htold t n k ht).bind_of_error hfirst⟩
      | none =>
          obtain ⟨es', state', hmeets', htold'⟩ :=
            ih (fun q hq => henter q (List.mem_cons_of_mem p hq)) after
          exact ⟨es ++ es', state', hmeets.append hfirst hmeets', fun t n k ht =>
            (htold t n k ht).bind hfirst fun u hu => htold' u _ _ hu⟩

end Walk

/-! ## Walks that are not too deep -/

/-- **What file systems promise**: the entries of a directory have plain names, and the path names
of directories are short. -/
structure Machine.Bounded {σ : Type} (m : Machine σ) (bound : Nat) : Prop where
  plain : ∀ dir state names, m.list dir state = .ok names → ∀ name ∈ names, Path.PlainName name
  length_lt : ∀ p state, m.isDirectory p state = true → p.bytes.length < bound

namespace Walk

variable {σ : Type} {m : Machine σ} {s : Settings} {bound : Nat}

/-- **A walk meets something and is told by it**, if it may go as deep as path names are long. -/
theorem exists_meets_visit (hm : m.Bounded bound) {depth : Nat} {dir : Path} (hdepth : 0 < depth)
    (hroom : bound ≤ dir.bytes.length + depth) (state : σ) :
    ∃ es state', m.Meets s state [.enter dir] es state' ∧
      ToldBy s (visit m s depth dir) 0 0 state es state' := by
  induction depth generalizing dir state with
  | zero => cases hdepth
  | succ depth ih =>
      cases hl : m.list dir state with
      | error cause =>
          refine ⟨_, state, .blocked [] hl, fun _ =>
            ⟨.error (.failed (.discovery dir cause)), .error rfl, fun bytes => ?_⟩⟩
          rw [visit_succ, hl]
          simp [reports, Encounter.report]
      | ok names =>
          have henter : ∀ p ∈ entryPaths dir names, ∀ state, m.isDirectory p state = true →
              ∃ es state', m.Meets s state [.enter p] es state' ∧
                ToldBy s (visit m s depth p) 0 0 state es state' := by
            intro p hp state hd
            obtain ⟨name, hname, rfl⟩ := View.mem_entryPaths.mp hp
            -- The path name of an entry is longer, so that some depth is left.
            have hlonger := dir.length_lt_join (hm.plain dir _ names hl name hname)
            have hshort := hm.length_lt _ state hd
            exact ih (by omega) (by omega) state
          obtain ⟨es, state', hmeets, htold⟩ := exists_meets_visitPaths henter state
          refine ⟨_, state', .enter hl (by simpa using hmeets), fun hfew => ?_⟩
          obtain ⟨r, hr, hrun⟩ := htold .zero 0 0 Totals.counts_zero hfew
          refine ⟨r, ?_, fun bytes => ?_⟩
          · cases hr with
            | totals hfine hcounts => exact .totals hfine hcounts
            | error herror => exact .error herror
          · rw [visit_succ, hl]
            exact hrun bytes

/-- **A run of all suites** ends with the first error that it meets, without a summary, or with
totals that count what it has met, and their summary. -/
theorem exists_meets_runSuites (hm : m.Bounded bound) (hbound : 0 < bound) (state : σ) :
    ∃ es state', m.Meets s state [.enter s.root] es state' ∧
      ((verdicts es).length < UInt64.size →
        (∃ e, firstError? es = some e ∧ runSuites m s bound ⟨state, .unlimited⟩ =
          (.error (.failed e), ⟨state', .holding (reports s es)⟩)) ∨
        (∃ t, firstError? es = none ∧ t.Counts (verdicts es).length (passes es) ∧
          runSuites m s bound ⟨state, .unlimited⟩ =
            (.ok t, ⟨state', .holding (reports s es ++ Emission.written (s.summary t))⟩))) := by
  have hroom : bound ≤ s.root.bytes.length + bound := Nat.le_add_left _ _
  obtain ⟨es, state', hmeets, htold⟩ := exists_meets_visit (s := s) hm hbound hroom state
  refine ⟨es, state', hmeets, fun hfew => ?_⟩
  obtain ⟨r, hr, hrun⟩ := htold (by omega)
  have hvisit := hrun []
  rw [List.nil_append] at hvisit
  unfold runSuites
  cases hr with
  | @error e herror => exact Or.inl ⟨e, herror, bind_of_error _ hvisit⟩
  | @totals t hfine hcounts =>
      rw [Nat.zero_add, Nat.zero_add] at hcounts
      refine Or.inr ⟨t, hfine, hcounts, (bind_of_ok _ hvisit).trans ?_⟩
      have hsummary : ∀ session : Session σ,
          orStop .overflow ((Reporter.ofSettings s).summary t) session =
            (.ok (s.summary t), session) := by
        intro session
        rw [Settings.summary_eq hcounts]
        rfl
      rw [bind_of_ok _ (hsummary _), bind_of_ok _ (report_holding _ _)]
      rfl

end Walk

end Conformance
