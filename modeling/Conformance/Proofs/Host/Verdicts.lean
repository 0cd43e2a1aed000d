import Mathlib
import Conformance.Host.Run
import Conformance.Proofs.Supervisor.Judgement
import Conformance.Proofs.Supervisor.Warnings
import Conformance.Proofs.Walk.Aborts
import Conformance.Proofs.Walk.Completion

set_option autoImplicit false

/-! # Cases in a world

A world behaves like any other system while it runs a case (`World.exists_behaviour`): only so many events
happen in it, and what is awaited after them makes no difference (`Behaviour.ofEvents`). So the verdict on
a case is the one that comes first in a world too, and no case aborts a walk through it
(`Behaviour.one_verdict_in_order`).
-/

namespace Conformance

/-! ## Finitely many events -/

namespace Supervisor

variable {s : Supervisor}

/-- The rank of a phase counts down to the result. -/
theorem rank_eq_zero_iff : Scene.rank s.phase = 0 ↔ s.result? ≠ none := by
  cases hphase : s.phase with
  | draining c graces => cases graces <;> simp [result?, hphase, Scene.rank]
  | _ => simp [result?, hphase, Scene.rank]

theorem rank_handle_grace_le (h : Scene.rank s.phase ≤ 2) :
    Scene.rank (s.handle .grace).1.phase ≤ Scene.rank s.phase - 1 := by
  by_cases hzero : Scene.rank s.phase = 0
  · obtain hsame | hlt := s.phase_handle .grace
    · rw [hsame, hzero]
    · omega
  · have hawaits : s.phase.Awaits .grace := by
      cases hphase : s.phase with
      | draining c graces => exact trivial
      | racing | reaping =>
          rw [hphase] at h
          exact absurd h (by decide)
      | finished | failed =>
          rw [hphase] at hzero
          exact absurd rfl hzero
    have hlt := rank_handle_lt hawaits
    omega

/-- With the process lost there is at most draining left to do. -/
theorem rank_handle_lost_le (s : Supervisor) (cause : IoError) :
    Scene.rank (s.handle (.lost cause)).1.phase ≤ 2 := by
  have hnear : Scene.rank s.phase ≤ 2 → Scene.rank (s.handle (.lost cause)).1.phase ≤ 2 := by
    intro hle
    obtain hsame | hlt := s.phase_handle (.lost cause)
    · rwa [hsame]
    · omega
  cases hphase : s.phase with
  | racing =>
      have hzero := rank_eq_zero_iff.mpr (result?_handle_lost hphase cause ▸ Option.some_ne_none _)
      omega
  | reaping =>
      have hawaits : s.phase.Awaits (.lost cause) := by
        rw [hphase]
        exact trivial
      have hlt := rank_handle_lt hawaits
      rw [hphase] at hlt
      exact Nat.le_of_lt_succ hlt
  | draining c graces =>
      apply hnear
      rw [hphase]
      cases graces <;> simp [Scene.rank]
  | _ =>
      apply hnear
      rw [hphase]
      exact Nat.zero_le 2

/-- **A supervision that is abandoned has a result.** -/
theorem result?_abandon (s : Supervisor) (cause : IoError) :
    (s.afterAll (silence cause)).1.result? = some (s.abandon cause) := by
  have hlost := s.rank_handle_lost_le cause
  have hfirst := rank_handle_grace_le hlost
  have hsecond := rank_handle_grace_le (hfirst.trans (by omega))
  have hzero : Scene.rank (s.afterAll (silence cause)).1.phase = 0 := by
    show Scene.rank ((((s.handle (.lost cause)).1.handle .grace).1.handle .grace).1).phase = 0
    omega
  obtain ⟨result, hresult⟩ := Option.ne_none_iff_exists'.mp (rank_eq_zero_iff.mp hzero)
  rw [abandon, hresult]
  rfl

end Supervisor

namespace Behaviour

/-! ## Behaviours of finitely many events -/

def prolonged (events : List Event) (n : ℕ) : Event :=
  (events ++ [.deadline, .ended (.exited 0)])[n]?.getD .grace

theorem prolonged_of_lt {events : List Event} {n : ℕ} (h : n < events.length) :
    prolonged events n = events[n] := by
  rw [prolonged, List.getElem?_append_left h, List.getElem?_eq_getElem h]
  rfl

theorem prolonged_length_add (events : List Event) (k : ℕ) :
    prolonged events (events.length + k) =
      [Event.deadline, .ended (.exited 0)][k]?.getD .grace := by
  rw [prolonged, List.getElem?_append_right (Nat.le_add_right _ _), Nat.add_sub_cancel_left]

theorem afterFirst_prolonged (events : List Event) :
    Supervisor.afterFirst (prolonged events) events.length =
      (Supervisor.start.afterAll events).1 := by
  have hevents : (List.range events.length).map (prolonged events) = events := by
    refine List.ext_getElem (by simp) fun i hi hi' => ?_
    rw [List.getElem_map, List.getElem_range, prolonged_of_lt hi']
  rw [Supervisor.afterFirst, hevents]

/-- **A behaviour of finitely many events**, after which the result of the supervision stands. -/
def ofEvents (opening launching : Option IoError) (events : List Event)
    (h : (Supervisor.start.afterAll events).1.result? ≠ none) : Behaviour where
  opening := opening
  launching := launching
  events := prolonged events
  timely := by
    intro n hopen
    by_cases hn : n < events.length
    · cases hphase : (Supervisor.afterFirst (prolonged events) n).phase with
      | racing =>
          refine ⟨events.length + 0, by omega, ?_⟩
          rw [prolonged_length_add]
          exact trivial
      | reaping =>
          refine ⟨events.length + 1, by omega, ?_⟩
          rw [prolonged_length_add]
          exact trivial
      | draining c graces =>
          refine ⟨events.length + 2, by omega, ?_⟩
          rw [prolonged_length_add]
          exact trivial
      | finished x => simp [Supervisor.result?, hphase] at hopen
      | failed cause => simp [Supervisor.result?, hphase] at hopen
    · -- The result stands by then.
      rw [← afterFirst_prolonged] at h
      obtain ⟨result, hresult⟩ := Option.ne_none_iff_exists'.mp h
      rw [Supervisor.afterFirst_of_result hresult (not_lt.mp hn), hresult] at hopen
      cases hopen

theorem after_ofEvents (opening launching : Option IoError) {events : List Event}
    (h : (Supervisor.start.afterAll events).1.result? ≠ none) :
    (ofEvents opening launching events h).after events.length =
      (Supervisor.start.afterAll events).1 := afterFirst_prolonged events

end Behaviour

/-! ## What happens in a world -/

/-- What can be heard of a process in a world, whose pipes can always be read. -/
def Event.Worldly : Event → Prop
  | .lost cause => cause = .os .noChild
  | .unread _ _ => False
  | _ => True

namespace Watch

/-- **What a watched process comes to** is what its supervisor makes of some events, and what is
logged meanwhile is what the supervisor warns of. -/
structure Hears (watch : Watch) (events : List Event) (result : Except Error Execution) (w : World) :
    Prop where
  result : (watch.supervisor.afterAll events).1.result? = some result
  worldly : ∀ e ∈ events, e.Worldly
  noted : ∃ noted, w.diagnostics = watch.diagnostics ++ noted ∧
    noted.map Diagnostic.warning = watch.supervisor.warnings events ∧ ∀ d ∈ noted, d.pid = watch.pid

theorem worldly_of_mem_events {watch : Watch} {w : World} {e : Event} (h : e ∈ watch.events w) :
    e.Worldly := by
  have hstream : ∀ stream, e ∈ watch.streamEvents w stream → e.Worldly := by
    intro stream hmem
    simp only [streamEvents] at hmem
    split at hmem
    · cases hmem
    · obtain rfl | rfl : e = .wrote stream _ ∨ e = .closed stream := by simpa using hmem
      · trivial
      · trivial
  simp only [events, List.mem_append] at h
  obtain ((hout | herr) | hend) | htime := h
  · exact hstream .stdout hout
  · exact hstream .stderr herr
  · simp only [endEvents] at hend
    split at hend
    · obtain ⟨ending, -, rfl⟩ := List.mem_map.mp hend
      trivial
    · cases hend
  · simp only [timeEvents, List.mem_append] at htime
    obtain hdeadline | hgrace := htime
    · split at hdeadline
      · cases List.mem_singleton.mp hdeadline
        trivial
      · cases hdeadline
    · split at hgrace
      · cases List.mem_singleton.mp hgrace
        trivial
      · cases hgrace

theorem exists_noted (watch : Watch) (w : World) (events : List Event) :
    ∃ noted, watch.noted w events = watch.diagnostics ++ noted ∧
      noted.map Diagnostic.warning = watch.supervisor.warnings events ∧
      ∀ d ∈ noted, d.pid = watch.pid := by
  refine ⟨_, rfl, ?_, fun d hd => ?_⟩
  · rw [List.map_map]
    exact List.map_id _
  · obtain ⟨warning, -, rfl⟩ := List.mem_map.mp hd
    rfl

/-- When nothing more is heard, the process counts as lost. -/
theorem hears_silence (watch : Watch) (w : World) :
    watch.Hears (Supervisor.silence (.os .noChild)) (watch.supervisor.abandon (.os .noChild))
      { w with diagnostics := watch.noted w (Supervisor.silence (.os .noChild)) } where
  result := watch.supervisor.result?_abandon _
  worldly := by
    intro e he
    simp only [Supervisor.silence, List.mem_cons, List.not_mem_nil, or_false] at he
    obtain rfl | rfl | rfl := he <;> trivial
  noted := watch.exists_noted w _

/-- **One observation** leaves a watch that has heard what has happened. -/
theorem Hears.of_observe {watch watch' : Watch} {w w' after : World} {events : List Event}
    {result : Except Error Execution} (h : watch'.Hears events result after)
    (hobserve : watch.observe w = (watch', w')) :
    watch.Hears (watch.events w ++ events) result after := by
  have hsupervisor : watch'.supervisor = (watch.supervisor.afterAll (watch.events w)).1 :=
    (congrArg (fun p => p.1.supervisor) hobserve).symm
  have hdiagnostics : watch'.diagnostics = watch.noted w (watch.events w) :=
    (congrArg (fun p => p.1.diagnostics) hobserve).symm
  have hpid : watch'.pid = watch.pid := (congrArg (fun p => p.1.pid) hobserve).symm
  obtain ⟨noted, hnoted, hwarnings, hfirst⟩ := watch.exists_noted w (watch.events w)
  obtain ⟨more, hmore, hrest, hsecond⟩ := h.noted
  refine ⟨?_, List.forall_mem_append.mpr ⟨fun _ => worldly_of_mem_events, h.worldly⟩,
    noted ++ more, ?_, ?_, List.forall_mem_append.mpr ⟨hfirst, hpid ▸ hsecond⟩⟩
  · rw [Supervisor.afterAll_append, ← hsupervisor]
    exact h.result
  · rw [hmore, hdiagnostics, hnoted, List.append_assoc]
  · rw [List.map_append, hwarnings, hrest, Supervisor.warnings_append, hsupervisor]

theorem exists_hears_follow (steps : ℕ) (watch : Watch) (w : World) :
    ∃ events, watch.Hears events (follow steps watch w).1 (follow steps watch w).2 := by
  induction steps generalizing watch w with
  | zero => exact ⟨_, watch.hears_silence w⟩
  | succ steps ih =>
      rw [follow]
      rcases hobserve : watch.observe (w.advance watch.due) with ⟨watch', w'⟩
      cases hresult : watch'.supervisor.result? with
      | some result =>
          have hears : watch'.Hears [] result { w' with diagnostics := watch'.diagnostics } :=
            ⟨hresult, nofun, [], (List.append_nil _).symm, rfl, nofun⟩
          simp only [hresult]
          exact ⟨_, hears.of_observe hobserve⟩
      | none =>
          obtain ⟨events, hears⟩ := ih watch' w'
          simp only [hresult]
          exact ⟨_, hears.of_observe hobserve⟩

end Watch

namespace World
variable {w w' : World} {interpreter script : Path} {deadline : Duration}

/-- A process is watched from its launch on, and the log goes on with it. -/
theorem watch_of_launchTest {watch : Watch}
    (h : w.launchTest interpreter script deadline = .ok (watch, w')) :
    watch.supervisor = .start ∧ watch.diagnostics = w.diagnostics := by
  rw [launchTest] at h
  split at h
  · cases h
  · split at h
    · cases h
    · have hwatch : (w.addTest deadline).1 = watch := congrArg Prod.fst (Except.ok.inj h)
      rw [← hwatch]
      exact ⟨rfl, rfl⟩

theorem diagnostics_sweep (w : World) : w.sweep.diagnostics = w.diagnostics := by
  unfold sweep
  dsimp only
  split <;> rfl

/-- **What a process in a world comes to** once it is launched. -/
theorem exists_events_supervise {watch : Watch}
    (h : w.launchTest interpreter script deadline = .ok (watch, w')) : ∃ events noted,
    (Supervisor.start.afterAll events).1.result? = some (supervise watch w').1 ∧
      (∀ e ∈ events, e.Worldly) ∧
      (supervise watch w').2.diagnostics = w.diagnostics ++ noted ∧
      noted.map Diagnostic.warning = Supervisor.start.warnings events := by
  obtain ⟨events, hears⟩ := Watch.exists_hears_follow (watch.enough w') watch w'
  obtain ⟨hsupervisor, hdiagnostics⟩ := watch_of_launchTest h
  obtain ⟨noted, hnoted, hwarnings, -⟩ := hears.noted
  have hresult := hears.result
  rw [hsupervisor] at hwarnings hresult
  rw [hdiagnostics] at hnoted
  refine ⟨events, noted, ?_, hears.worldly, ?_, hwarnings⟩
  · rw [supervise, Prod.map_fst, id_eq]
    exact hresult
  · rw [supervise, Prod.map_snd, diagnostics_sweep]
    exact hnoted

/-- **A world is a system like any other** while it runs a case. -/
theorem exists_behaviour (w : World) (interpreter script : Path) (deadline : Duration) :
    ∃ (b : Behaviour) (spawned : List (Path × Path)),
      b.opening = w.refusal? script ∧
      (∀ cause, b.launching = some cause ↔
        w.launchTest interpreter script deadline = .error cause) ∧
      b.Runs interpreter script spawned (w.runCase interpreter script deadline).1 := by
  -- What a launched process comes to, if one is launched.
  obtain ⟨launching, events, result, hlaunching, hevents, hresult⟩ :
      ∃ (launching : Option IoError) (events : List Event) (result : Except Error Execution),
        (∀ cause, launching = some cause ↔
          w.launchTest interpreter script deadline = .error cause) ∧
        (Supervisor.start.afterAll events).1.result? = some result ∧
        ∀ watch w', w.launchTest interpreter script deadline = .ok (watch, w') →
          (supervise watch w').1 = result := by
    cases hlaunch : w.launchTest interpreter script deadline with
    | error cause =>
        refine ⟨some cause, _, _, fun _ => ?_, Supervisor.result?_abandon .start (.os .noChild), nofun⟩
        rw [Option.some.injEq, Except.error.injEq]
    | ok p =>
        obtain ⟨watch, w'⟩ := p
        obtain ⟨events, -, hevents, -⟩ := exists_events_supervise hlaunch
        refine ⟨none, events, _, fun _ => by simp, hevents, ?_⟩
        rintro _ _ heq
        cases heq
        rfl
  have hstands : (Supervisor.start.afterAll events).1.result? ≠ none :=
    hevents ▸ Option.some_ne_none _
  refine ⟨.ofEvents (w.refusal? script) launching events hstands, ?_⟩
  cases hopening : w.refusal? script with
  | some cause =>
      have hrun : w.runCase interpreter script deadline = (.error (.unreadable script cause), w) :=
        Runner.run_of_refused hopening
      rw [hrun]
      exact ⟨_, rfl, hlaunching, (Behaviour.runs_of_opening rfl).mpr ⟨rfl, rfl⟩⟩
  | none =>
      cases hlaunch : w.launchTest interpreter script deadline with
      | error cause =>
          have hrun : w.runCase interpreter script deadline = (.error (.spawn interpreter cause), w) :=
            Runner.run_of_not_launched hopening hlaunch
          rw [hrun]
          refine ⟨[], rfl, hlaunch ▸ hlaunching, ?_⟩
          exact (Behaviour.runs_of_launching rfl ((hlaunching cause).mpr hlaunch)).mpr ⟨rfl, rfl⟩
      | ok p =>
          obtain ⟨watch, w'⟩ := p
          have hrun : w.runCase interpreter script deadline = supervise watch w' :=
            Runner.run_of_launched hopening hlaunch
          have hnone : launching = none := by
            rw [Option.eq_none_iff_forall_ne_some]
            intro cause hcause
            rw [(hlaunching cause).mp hcause] at hlaunch
            cases hlaunch
          have hsupervise := hresult watch w' hlaunch
          rw [hrun, hsupervise]
          refine ⟨[(interpreter, script)], rfl, hlaunch ▸ hlaunching, ?_⟩
          refine (Behaviour.runs_of_launched rfl hnone).mpr ⟨rfl, events.length, ?_⟩
          rw [Behaviour.after_ofEvents, hevents]

end World

/-! ## One verdict -/

namespace Behaviour

/-- **A case has exactly one verdict, and what comes first settles it.** Whatever a system does, a script
that cannot be opened is told before anything that an interpreter does, and nothing is spawned for it;
after that a failed launch, a lost process, the deadline and the end of the process are told, in the order
of `Judged`. A world is such a system. Nothing that a run can come to is handed back without a verdict,
so that a walk is aborted only by a directory that cannot be listed or a report that cannot be
written. -/
theorem one_verdict_in_order :
    (∀ (b : Behaviour) (interpreter script : Path) (deadline : Duration),
      (∃! p : List (Path × Path) × Verdict, b.Judges interpreter script deadline p.1 p.2) ∧
      (∀ spawned v, b.Judges interpreter script deadline spawned v ↔
        b.Judged interpreter script deadline spawned v) ∧
      ∀ spawned result, b.Runs interpreter script spawned result →
        ∃ v, classifyRun result deadline = .ok v) ∧
    (∀ (w : World) (interpreter script : Path) (deadline : Duration),
      (∃ (b : Behaviour) (spawned : List (Path × Path)), b.opening = w.refusal? script ∧
        (∀ cause, b.launching = some cause ↔
          w.launchTest interpreter script deadline = .error cause) ∧
        b.Runs interpreter script spawned (w.runCase interpreter script deadline).1) ∧
      (w.refusal? script ≠ none → (w.runCase interpreter script deadline).2 = w)) ∧
    ∀ (σ : Type) (m : Machine σ) (s : Settings),
      (∀ c state, ∃ (b : Behaviour) (spawned : List (Path × Path)),
        b.Runs s.interpreter c.path spawned (m.run c state).1) →
      ∀ depth session e, (Walk.runSuites m s depth session).1 = .error (.failed e) →
        Walk.Abort m e := by
  refine ⟨fun b interpreter script deadline => ⟨?_, fun _ _ => judges_iff_judged, ?_⟩,
    fun w interpreter script deadline => ⟨w.exists_behaviour interpreter script deadline, ?_⟩,
    fun σ m s hruns depth => ?_⟩
  · exact b.existsUnique_judges interpreter script deadline
  · intro spawned result hruns
    obtain ⟨o, rfl⟩ := hruns.exists_outcome
    exact ⟨_, o.classifyRun_result deadline⟩
  · intro hrefused
    obtain ⟨cause, hcause⟩ := Option.ne_none_iff_exists'.mp hrefused
    have hrun : w.runCase interpreter script deadline = (.error (.unreadable script cause), w) :=
      Runner.run_of_refused hcause
    rw [hrun]
  · refine Walk.failsBy_runSuites (fun c state => ?_) s depth
    obtain ⟨b, spawned, hb⟩ := hruns c state
    exact hb.exists_outcome

/-- A process that writes and exits with 3 before its deadline passes. -/
def sampleEvents : List Event :=
  [.wrote .stdout [104], .ended (.exited 3), .deadline, .closed .stderr, .closed .stdout]

theorem sampleEvents_stand : (Supervisor.start.afterAll sampleEvents).1.result? ≠ none := by decide

/-- The exit of the process comes before its deadline here, and a script that cannot be opened before
everything else; and no case aborts a walk through a world. -/
theorem one_verdict_in_order_sample :
    (ofEvents none none sampleEvents sampleEvents_stand).Judges (.ofText "lua") (.ofText "t/a.lua")
      ⟨5, 0⟩ [(.ofText "lua", .ofText "t/a.lua")] (.failed (.nonZeroExit 3 "h" "")) ∧
    (ofEvents (some .zeroInName) (some .zeroInArgument) sampleEvents sampleEvents_stand).Judges
      (.ofText "lua") (.ofText "t/a.lua") ⟨5, 0⟩ [] (.failed (.unreadable
        ("Failed to open file '" ++ (Path.ofText "t/a.lua").text ++
          "': " ++ IoError.zeroInName.message))) ∧
    ∀ depth session e,
      (Walk.runSuites (World.machine Settings.sample) Settings.sample depth session).1 =
        .error (.failed e) → Walk.Abort (World.machine Settings.sample) e := by
  obtain ⟨hverdict, hworld, hwalk⟩ := one_verdict_in_order
  refine ⟨?_, ?_, hwalk World _ _ fun c w => ?_⟩
  · refine ((hverdict _ _ _ _).2.1 _ _).mpr ?_
    have hwon : (ofEvents none none sampleEvents sampleEvents_stand).WonBy 1 := by
      refine ⟨trivial, fun m hm => ?_⟩
      obtain rfl : m = 0 := by omega
      exact id
    have hcollected := Collected.read (b := ofEvents none none sampleEvents sampleEvents_stand)
      (n := 1) (m := 5) (fun stream => by cases stream <;> decide) (by decide)
    exact .nonZeroExit rfl rfl hwon rfl (by decide) hcollected
  · exact ((hverdict _ _ _ _).2.1 _ _).mpr (.unreadable rfl)
  · obtain ⟨⟨b, spawned, -, -, hruns⟩, -⟩ :=
      hworld w Settings.sample.interpreter c.path Settings.sample.timeout
    exact ⟨b, spawned, hruns⟩

end Behaviour

end Conformance
