import Mathlib
import Conformance.Proofs.Supervisor.Account

set_option autoImplicit false

/-! # The result in every order of events

A scene is quiet when nothing is bound to happen any more. Only so many moves are due one after the
other (`Run.length_le_budget`), and in a quiet scene the result stands (`Sound.exists_finished`). So a
supervision has a result whatever the order of the moves, and by the account of the run it is the right
one (`supervise_in_any_order`).
-/

namespace Conformance

namespace Scene

variable {s t : Scene} {m : Move} {moves more : List Move}

/-! ## A result comes -/

/-- **Nothing is bound to happen any more**: whoever was killed is gone, and no move is due. -/
structure Quiet (s : Scene) : Prop where
  spared : ∀ pid p, s.alive pid = some p → p.doomed = false
  idle : ∀ m t, m.Due → ¬ Step s m t

/-- **In a quiet scene the result stands.** -/
theorem Sound.exists_finished (h : Sound moves s) (hquiet : s.Quiet) :
    ∃ x, s.supervisor.phase = .finished x := by
  have hstands := h.stands
  cases hphase : s.supervisor.phase with
  | racing =>
      cases helapsed : s.elapsed with
      | false => exact absurd (Step.elapse helapsed) (hquiet.idle _ _ trivial)
      | true => exact absurd (Step.deadline hphase helapsed) (hquiet.idle _ _ trivial)
  | reaping =>
      -- a child that is caught by the deadline has ended, and so its ending can be collected
      cases hending : s.ending with
      | none =>
          obtain ⟨p, hp⟩ := Option.ne_none_iff_exists'.mp (h.running.mp hending)
          have hdoomed := h.doomed hphase p hp
          rw [hquiet.spared child p hp] at hdoomed
          cases hdoomed
      | some ending => exact absurd (Step.collect (.inr hphase) hending) (hquiet.idle _ _ trivial)
  | draining c graces => exact absurd (Step.grace hphase) (hquiet.idle _ _ trivial)
  | finished x => exact ⟨x, rfl⟩
  | failed cause =>
      rw [Stands, hphase] at hstands
      exact hstands.elim

/-- Steps that a phase may still take. -/
def rank : Phase → ℕ
  | .racing => 4
  | .reaping => 3
  | .draining _ 0 => 2
  | .draining _ (_ + 1) => 1
  | .finished _ | .failed _ => 0

/-- Steps that a reader may still take with what is there. -/
def backlog (s : Scene) (stream : Stream) : ℕ :=
  (s.unread stream).length + if (s.supervisor.reader stream).atEnd then 0 else 1

/-- **A bound on the moves that are due**, one after the other, while no process does anything. -/
def budget (s : Scene) : ℕ :=
  (if s.elapsed then 0 else 1) + rank s.supervisor.phase + s.backlog .stdout + s.backlog .stderr

theorem rank_settle_le (w : Supervisor) : rank w.settle.phase ≤ rank w.phase := by
  obtain ⟨hsame, -⟩ | ⟨c, graces, -, -, hsettle⟩ := w.settle_cases
  · rw [hsame]
  · rw [hsettle]
    exact Nat.zero_le _

/-- A due move adds to no backlog, and the move of a reader takes from its own. -/
theorem Step.backlog_le (h : Step s m t) (hm : m.Due) (stream : Stream) :
    t.backlog stream ≤ s.backlog stream := by
  rw [backlog, backlog, h.reader stream]
  cases h with
  | @read target bytes rest _ hunread _ =>
      by_cases heq : stream = target
      · subst heq
        simp only [unread_tell, Function.update_self, hunread, Move.readBy, List.length_append]
        split <;> simp
      · simp [heq, Move.readBy]
  | @eof target =>
      by_cases heq : stream = target
      · simp [heq, Move.readBy]
      · simp [heq, Move.readBy]
  | write | close | fork | regroup | exit => cases hm
  | _ => rfl

/-- The move of a reader takes from its backlog. -/
theorem Step.backlog_lt {stream : Stream} (h : Step s m t)
    (hm : (∃ bytes, m = .read stream bytes) ∨ m = .eof stream) :
    t.backlog stream < s.backlog stream := by
  rw [backlog, backlog, h.reader stream]
  cases h with
  | @read target bytes rest _ hunread hbytes =>
      obtain ⟨_, hsame⟩ | hsame := hm
      · cases hsame
        have hpos : 0 < bytes.length := List.length_pos_of_ne_nil hbytes
        simp only [unread_tell, Function.update_self, hunread, Move.readBy, List.length_append]
        split <;> simp [hpos]
      · cases hsame
  | @eof target _ hopen =>
      obtain ⟨_, hsame⟩ | hsame := hm
      · cases hsame
      · cases hsame
        simp [Move.readBy, hopen]
  | _ => simp at hm

/-- The moves that the supervisor itself makes bring it nearer to its result. -/
theorem Step.rank_lt (h : Step s m t)
    (hm : (∃ ending, m = .collect ending) ∨ m = .deadline ∨ m = .grace) :
    rank t.supervisor.phase < rank s.supervisor.phase := by
  cases h with
  | @collect ending hphase _ =>
      rw [supervisor_tell]
      obtain hphase | hphase := hphase
      · rw [Supervisor.handle_ended_of_racing hphase, hphase]
        calc rank { s.supervisor with phase := .draining ending.completion 0 }.settle.phase
            ≤ 2 := rank_settle_le _
          _ < rank .racing := by decide
      · rw [Supervisor.handle_ended_of_reaping hphase, hphase]
        calc rank { s.supervisor with phase := .draining .timedOut 0 }.settle.phase
            ≤ 2 := rank_settle_le _
          _ < rank .reaping := by decide
  | deadline hphase _ =>
      rw [supervisor_tell, Supervisor.handle_deadline_of_racing hphase, hphase]
      exact Nat.lt_succ_self 3
  | @grace c graces hphase =>
      rw [supervisor_tell]
      cases graces with
      | zero =>
          rw [Supervisor.handle_grace_first hphase, hphase]
          calc rank { s.supervisor with phase := .draining c 1 }.settle.phase
              ≤ 1 := rank_settle_le _
            _ < rank (.draining c 0) := Nat.lt_succ_self 1
      | succ graces =>
          rw [Supervisor.handle_grace_last hphase, hphase]
          exact Nat.one_pos
  | _ => simp at hm

theorem Step.rank_le (h : Step s m t) : rank t.supervisor.phase ≤ rank s.supervisor.phase := by
  cases hstep : h with
  | @read stream bytes rest hopen _ _ =>
      rw [supervisor_tell, Supervisor.handle_wrote hopen]
      have hrank := rank_settle_le (s.supervisor.read (.wrote stream bytes))
      rwa [Supervisor.phase_read] at hrank
  | @eof stream hopen _ _ _ =>
      rw [supervisor_tell, Supervisor.handle_closed hopen]
      have hrank := rank_settle_le (s.supervisor.read (.closed stream))
      rwa [Supervisor.phase_read] at hrank
  | collect => exact (h.rank_lt (.inl ⟨_, rfl⟩)).le
  | deadline => exact (h.rank_lt (.inr (.inl rfl))).le
  | grace => exact (h.rank_lt (.inr (.inr rfl))).le
  | _ => exact le_rfl

/-- **Every due move takes from the budget.** -/
theorem Step.budget_lt (h : Step s m t) (hm : m.Due) : t.budget < s.budget := by
  have hout := h.backlog_le hm .stdout
  have herr := h.backlog_le hm .stderr
  have hrank := h.rank_le
  rw [budget, budget]
  -- No summand grows, and each move takes from one of them.
  by_cases hmove : m = .elapse
  · subst hmove
    obtain ⟨hbefore, hafter⟩ := h.elapsed_elapse
    rw [hbefore, hafter]
    simp only [Bool.false_eq_true, if_true, if_false]
    omega
  · rw [h.elapsed_eq hmove]
    cases m with
    | read stream bytes =>
        have hlt := h.backlog_lt (.inl ⟨bytes, rfl⟩)
        cases stream <;> omega
    | eof stream =>
        have hlt := h.backlog_lt (.inr rfl)
        cases stream <;> omega
    | collect ending =>
        have hlt := h.rank_lt (.inl ⟨ending, rfl⟩)
        omega
    | deadline =>
        have hlt := h.rank_lt (.inr (.inl rfl))
        omega
    | grace =>
        have hlt := h.rank_lt (.inr (.inr rfl))
        omega
    | elapse => exact absurd rfl hmove
    | _ => exact hm.elim

/-- **There is no end of due moves but a near one.** -/
theorem Run.length_le_budget (h : Run s more t) (hdue : ∀ m ∈ more, m.Due) :
    more.length + t.budget ≤ s.budget := by
  induction h with
  | refl => simp
  | @snoc t u more m _ hstep ih =>
      have hbefore := ih fun m' hm' => hdue m' (List.mem_append_left _ hm')
      have hlast := hstep.budget_lt (hdue m (by simp))
      rw [List.length_append, List.length_singleton]
      omega

/-! ## The result is the right one -/

/-- A decided completion is that of the branch which the race has taken. -/
theorem Sound.decided (h : Sound moves s) {c : Completion} (hc : s.supervisor.completion? = some c) :
    .killGroup ∈ s.log ∧ (c = .timedOut ↔ .deadline ∈ moves) ∧
      (.deadline ∉ moves → ∃ ending, s.ending = some ending ∧ c = ending.completion) := by
  have hstands := h.stands
  have hended : Decided moves s.log c →
      .deadline ∉ moves → ∃ ending, s.ending = some ending ∧ c = ending.completion := by
    intro hdecided hdeadline
    obtain ⟨ending, -, hexit, hcompletion⟩ := hdecided.ended
    exact ⟨ending, (h.ending ending).mpr hexit, hcompletion hdeadline⟩
  rw [Stands] at hstands
  rw [Supervisor.completion?] at hc
  cases hphase : s.supervisor.phase with
  | racing => simp [hphase] at hc
  | failed => simp [hphase] at hc
  | reaping =>
      simp only [hphase, Option.some.injEq] at hc hstands
      obtain ⟨hlog, hdeadline, -⟩ := hstands
      exact ⟨by simp [hlog], by simp [← hc, hdeadline], fun hno => absurd hdeadline hno⟩
  | draining d graces =>
      simp only [hphase, Option.some.injEq] at hc hstands
      subst hc
      exact ⟨hstands.1.killed, hstands.1.timedOut, hended hstands.1⟩
  | finished x =>
      simp only [hphase, Option.some.injEq] at hc hstands
      subst hc
      exact ⟨hstands.1.killed, hstands.1.timedOut, hended hstands.1⟩

/-- A result is that of a finished supervision: waiting did not fail. -/
theorem Sound.phase_of_result (h : Sound moves s) {result : Except Error Execution}
    (hresult : s.supervisor.result? = some result) :
    ∃ x, result = .ok x ∧ s.supervisor.phase = .finished x := by
  have hstands := h.stands
  rw [Stands] at hstands
  rw [Supervisor.result?] at hresult
  cases hphase : s.supervisor.phase with
  | finished x =>
      simp only [hphase, Option.some.injEq] at hresult
      exact ⟨x, hresult.symm, rfl⟩
  | failed cause => simp [hphase] at hstands
  | _ => simp [hphase] at hresult

/-- **A supervision in every order of events.** Wherever a run has come, the supervisor is not stuck:
only so many moves are due one after the other, and when nothing is bound to happen any more there is a
result. Once the race is over, the group has been killed, and the completion is a timeout if the branch
of the deadline was taken, otherwise what the child ended with; nothing changes it later. A result is
final, a child that was caught by the deadline has been reaped by then, and if both streams came to
their end before the second half second was over, each of them holds what was written to it, to the
last byte. -/
theorem supervise_in_any_order (hrun : Run start moves s) :
    (s.supervisor, s.log) = Supervisor.start.afterAll (moves.filterMap Move.event?) ∧
    (s.Quiet → s.supervisor.result? ≠ none) ∧
    (∀ more t, Run s more t → (∀ m ∈ more, m.Due) → more.length ≤ s.budget) ∧
    (∀ c, s.supervisor.completion? = some c →
      .killGroup ∈ s.log ∧
      (c = .timedOut ↔ .deadline ∈ moves) ∧
      (.deadline ∉ moves → ∃ ending, s.ending = some ending ∧ c = ending.completion) ∧
      ∀ more t, Run s more t → t.supervisor.completion? = some c) ∧
    ∀ result, s.supervisor.result? = some result →
      ∃ x, result = .ok x ∧ s.supervisor.completion? = some x.completion ∧
        (∀ more t, Run s more t → t.supervisor.result? = some (.ok x)) ∧
        (.deadline ∈ moves → .reap ∈ s.log ∧ ∃ ending, .collect ending ∈ moves) ∧
        (moves.count .grace ≤ 1 → ∀ stream, x.captured stream = written stream moves ∧
          ∀ more t, Run s more t → written stream more = []) := by
  have hsound := hrun.sound
  refine ⟨?_, ?_, ?_, ?_, ?_⟩
  · obtain ⟨hsupervisor, hlog⟩ := hrun.afterAll
    rw [hsupervisor, hlog]
    rfl
  · intro hquiet
    obtain ⟨x, hphase⟩ := hsound.exists_finished hquiet
    simp [Supervisor.result?, hphase]
  · intro more t hmore hdue
    have hle := hmore.length_le_budget hdue
    omega
  · intro c hc
    obtain ⟨hkilled, htimedOut, hended⟩ := hsound.decided hc
    exact ⟨hkilled, htimedOut, hended, fun more t hmore => hmore.completion?_eq hc⟩
  · intro result hresult
    obtain ⟨x, rfl, hphase⟩ := hsound.phase_of_result hresult
    -- What stands in a finished phase is part of the account of the run.
    have hstands := hsound.stands
    rw [Stands, hphase] at hstands
    obtain ⟨hdecided, hcaptured⟩ := hstands
    refine ⟨x, rfl, ?_, fun more t hmore => hmore.result?_eq hresult, ?_, ?_⟩
    · rw [Supervisor.completion?, hphase]
    · intro hdeadline
      obtain ⟨ending, hcollect, -, -⟩ := hdecided.ended
      exact ⟨hdecided.reaped hdeadline, ending, hcollect⟩
    · intro hgrace stream
      obtain ⟨hend, hbytes⟩ := hcaptured hgrace
      obtain ⟨hunread, hheld⟩ := hsound.closed stream (hend stream)
      refine ⟨?_, fun more t hmore => (hmore.not_held hheld).2⟩
      rw [hbytes stream, ← hsound.bytes stream, hunread, List.append_nil]

/-- A child starts a process that writes, and exits with 3 when its deadline has passed as well. The exit
is noticed first. What the other process writes before the kill ends it is captured too, and it has both
streams open until then. -/
def sampleMoves : List Move :=
  [.fork 0 1, .write 1 .stdout [104], .elapse, .exit 0 (.exited 3), .collect (.exited 3),
    .write 1 .stderr [33], .read .stdout [104], .write 1 .stdout [105], .exit 1 (.signaled 9),
    .read .stderr [33], .eof .stderr, .read .stdout [105], .eof .stdout]

theorem not_held_of_gone (h : ∀ pid, s.alive pid = none) (stream : Stream) : ¬ s.Held stream := by
  rintro ⟨pid, p, hp, -⟩
  rw [h pid] at hp
  cases hp

theorem quiet_of_gone (hgone : ∀ pid, s.alive pid = none) (helapsed : s.elapsed = true)
    {x : Execution} (hphase : s.supervisor.phase = .finished x) : s.Quiet where
  spared := by
    intro pid p hp
    rw [hgone pid] at hp
    cases hp
  idle := by
    intro m t hm hstep
    have hresult : s.supervisor.result? = some (.ok x) := by rw [Supervisor.result?, hphase]
    cases hstep with
    | elapse hnot => simp [helapsed] at hnot
    | read hopen _ _ => simp [hresult] at hopen
    | eof hopen _ _ _ => simp [hresult] at hopen
    | collect hrace _ => simp [hphase] at hrace
    | deadline hracing _ => simp [hphase] at hracing
    | grace hdraining => simp [hphase] at hdraining
    | _ => exact hm

/-- In the sample the result has the exit code of the child and all that was written. -/
theorem supervise_sample :
    ∃ s, Run start sampleMoves s ∧ s.Quiet ∧
      s.supervisor.result? = some (.ok ⟨.exited 3, [104, 105], [33]⟩) ∧
      written .stdout sampleMoves = [104, 105] ∧ written .stderr sampleMoves = [33] ∧
      ∀ more t, Run s more t →
        t.supervisor.result? = some (.ok ⟨.exited 3, [104, 105], [33]⟩) := by
  obtain ⟨s, hrun, hgone, helapsed, hphase⟩ : ∃ s, Run start sampleMoves s ∧
      (∀ pid, s.alive pid = none) ∧ s.elapsed = true ∧
      s.supervisor.phase = .finished ⟨.exited 3, [104, 105], [33]⟩ :=
    ⟨_,
      .cons (.fork rfl rfl (by decide) rfl) <|
      .cons (.write _ rfl rfl) <|
      .cons (.elapse rfl) <|
      .cons (.exit _ rfl) <|
      .cons (.collect (.inl rfl) rfl) <|
      .cons (.write _ rfl rfl) <|
      .cons (.read rfl rfl (by decide)) <|
      .cons (.write _ rfl rfl) <|
      .cons (.exit _ rfl) <|
      .cons (.read rfl rfl (by decide)) <|
      .cons (.eof rfl rfl rfl (not_held_of_gone (by
        intro pid
        simp +contextual [alive_tell_eq_none_iff, setProcess, Function.update_apply, start, child])
        _)) <|
      .cons (.read rfl rfl (by decide)) <|
      .cons (.eof rfl rfl rfl (not_held_of_gone (by
        intro pid
        simp +contextual [alive_tell_eq_none_iff, setProcess, Function.update_apply, start, child])
        _)) <|
      .refl, by
        intro pid
        simp +contextual [alive_tell_eq_none_iff, setProcess, Function.update_apply, start, child],
      rfl, rfl⟩
  have hquiet := quiet_of_gone hgone helapsed hphase
  obtain ⟨-, hreturns, -, -, hresults⟩ := supervise_in_any_order hrun
  obtain ⟨result, hresult⟩ := Option.ne_none_iff_exists'.mp (hreturns hquiet)
  obtain ⟨x, rfl, -, hfinal, -, hcaptured⟩ := hresults result hresult
  have hx : x = ⟨.exited 3, [104, 105], [33]⟩ := by
    simpa [Supervisor.result?, hphase] using hresult.symm
  subst hx
  have hgrace : sampleMoves.count .grace ≤ 1 := by decide
  exact ⟨s, hrun, hquiet, hresult, (hcaptured hgrace .stdout).1.symm,
    (hcaptured hgrace .stderr).1.symm, hfinal⟩

end Scene

end Conformance
