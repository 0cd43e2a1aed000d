import Mathlib
import Conformance.Proofs.Supervisor.Scene

set_option autoImplicit false

/-! # The account of a run

Whatever the order of the moves in a scene, a supervisor keeps account of them: what it has read and
what is still unread are together what was written, a stream that it knows to be at its end has no
writer left, and its phase says which branch of the race was taken. `Sound` is this account. One step
keeps it (`Sound.step`), so every run does (`Run.sound`).
-/

namespace Conformance

def Execution.captured (x : Execution) : Stream → Bytes
  | .stdout => x.stdout
  | .stderr => x.stderr

theorem Ending.completion_ne_timedOut (ending : Ending) : ending.completion ≠ .timedOut := by
  cases ending <;> simp [Ending.completion]

namespace Scene

variable {s t : Scene} {m : Move} {moves : List Move} {log : List Action} {w : Supervisor}

/-! ## The two pipes -/

theorem Held.of_setProcess {pid : ℕ} {p : Option Process} {stream : Stream}
    (hp : ∀ q, p = some q → q.holds stream = true → s.Held stream)
    (h : (s.setProcess pid p).Held stream) : s.Held stream := by
  obtain ⟨other, q, hq, hholds⟩ := h
  by_cases hother : other = pid
  · subst hother
    exact hp q (by simpa [setProcess] using hq) hholds
  · exact ⟨other, q, by simpa [setProcess, Function.update_of_ne hother] using hq, hholds⟩

/-- **A stream that nobody can write to stays so.** -/
theorem Step.not_held (h : Step s m t) {stream : Stream} (hs : ¬ s.Held stream) :
    ¬ t.Held stream ∧ m.writes stream = [] := by
  cases h with
  | @write pid p target bytes hp hholds =>
      refine ⟨hs, ?_⟩
      have hne : target ≠ stream := by
        rintro rfl
        exact hs ⟨pid, p, hp, hholds⟩
      simp [Move.writes, hne]
  | @close pid p target hp =>
      refine ⟨mt (Held.of_setProcess ?_) hs, rfl⟩
      rintro _ ⟨rfl⟩ hholds
      refine ⟨pid, p, hp, ?_⟩
      by_cases heq : stream = target
      · simp [heq] at hholds
      · simpa [Function.update_of_ne heq] using hholds
  | @fork pid p new hp =>
      refine ⟨mt (Held.of_setProcess ?_) hs, rfl⟩
      rintro _ ⟨rfl⟩ hholds
      exact ⟨pid, p, hp, hholds⟩
  | @regroup pid p inGroup hp =>
      refine ⟨mt (Held.of_setProcess ?_) hs, rfl⟩
      rintro _ ⟨rfl⟩ hholds
      exact ⟨pid, p, hp, hholds⟩
  | @exit pid p ending hp =>
      refine ⟨fun hheld => hs ?_, rfl⟩
      exact Held.of_setProcess (by simp) hheld
  | elapse => exact ⟨hs, rfl⟩
  | read => exact ⟨fun hheld => hs hheld.of_tell, rfl⟩
  | _ => exact ⟨mt Held.of_tell hs, rfl⟩

theorem Run.not_held (h : Run s moves t) {stream : Stream} (hs : ¬ s.Held stream) :
    ¬ t.Held stream ∧ written stream moves = [] := by
  induction h with
  | refl => exact ⟨hs, rfl⟩
  | snoc _ hstep ih =>
      obtain ⟨hheld, hwritten⟩ := hstep.not_held ih.1
      exact ⟨hheld, by simp [ih.2, hwritten]⟩

/-! ## The phases -/

/-- **How a decided completion has come about**: the group was killed and the child was reaped; it is a
timeout if the deadline has won the race, and otherwise what the child ended with. -/
structure Decided (moves : List Move) (log : List Action) (c : Completion) : Prop where
  killed : .killGroup ∈ log
  reaped : .deadline ∈ moves → .reap ∈ log
  timedOut : c = .timedOut ↔ .deadline ∈ moves
  ended : ∃ ending, .collect ending ∈ moves ∧ .exit child ending ∈ moves ∧
    (.deadline ∉ moves → c = ending.completion)

/-- What a phase says about the moves and the log. -/
def Stands (moves : List Move) (log : List Action) (w : Supervisor) : Prop :=
  match w.phase with
  | .racing => log = [] ∧ .deadline ∉ moves ∧ moves.count .grace = 0
  | .reaping => log = [.killGroup] ∧ .deadline ∈ moves ∧ moves.count .grace = 0
  | .draining c graces => Decided moves log c ∧ moves.count .grace = graces
  | .finished x => Decided moves log x.completion ∧
      (moves.count .grace ≤ 1 → w.AtEnd ∧ ∀ stream, x.captured stream = (w.reader stream).bytes)
  | .failed _ => False

theorem Decided.append {c : Completion} (h : Decided moves log c) {new : List Move} {done : List Action}
    (hnew : .deadline ∉ new) : Decided (moves ++ new) (log ++ done) c := by
  have hdeadline : .deadline ∈ moves ++ new ↔ .deadline ∈ moves := by simp [hnew]
  obtain ⟨ending, hcollect, hexit, hc⟩ := h.ended
  exact
    { killed := List.mem_append_left _ h.killed
      reaped := fun hm => List.mem_append_left _ (h.reaped (hdeadline.mp hm))
      timedOut := h.timedOut.trans hdeadline.symm
      ended := ⟨ending, List.mem_append_left _ hcollect, List.mem_append_left _ hexit,
        fun hm => hc (mt hdeadline.mpr hm)⟩ }

/-- A move that is neither of the two that the clock makes changes no phase. -/
theorem Stands.snoc (h : Stands moves log w) (hdeadline : m ≠ .deadline) (hgrace : m ≠ .grace) :
    Stands (moves ++ [m]) log w := by
  have hmem : .deadline ∈ moves ++ [m] ↔ .deadline ∈ moves := by simp [hdeadline.symm]
  have hcount : (moves ++ [m]).count .grace = moves.count .grace := by simp [hgrace]
  have hdecided : ∀ {c}, Decided moves log c → Decided (moves ++ [m]) log c := by
    intro c hc
    have hmore : Decided (moves ++ [m]) (log ++ []) c := hc.append (by simpa using hdeadline.symm)
    rwa [List.append_nil] at hmore
  rw [Stands] at h ⊢
  rw [hmem, hcount]
  split at h
  · exact h
  · exact h
  · exact ⟨hdecided h.1, h.2⟩
  · exact ⟨hdecided h.1, h.2⟩
  · exact h

/-- Before there is a result, what is read is no matter of the phase. -/
theorem Stands.read (h : Stands moves log w) (hopen : w.result? = none) (e : Event) :
    Stands moves log (w.read e) := by
  rw [Stands] at h ⊢
  rw [Supervisor.phase_read]
  split at h
  · exact h
  · exact h
  · exact h
  · rename_i x hphase
    simp [Supervisor.result?, hphase] at hopen
  · exact h

/-- The result that settling makes has all that was read. -/
theorem Stands.settle (h : Stands moves log w) : Stands moves log w.settle := by
  obtain ⟨hsame, -⟩ | ⟨c, graces, hphase, hend, hsettle⟩ := w.settle_cases
  · rwa [hsame]
  · rw [Stands, hphase] at h
    rw [hsettle]
    refine ⟨h.1, fun _ => ⟨?_, ?_⟩⟩
    · exact fun stream => by cases stream <;> [exact hend .stdout; exact hend .stderr]
    · exact fun stream => by cases stream <;> rfl

/-! ## The account -/

/-- **The account that a supervisor keeps** of the moves made so far. -/
structure Sound (moves : List Move) (s : Scene) : Prop where
  /-- Nothing that was written is lost, doubled or moved. -/
  bytes : ∀ stream, (s.supervisor.reader stream).bytes ++ s.unread stream = written stream moves
  closed : ∀ stream, (s.supervisor.reader stream).atEnd = true →
    s.unread stream = [] ∧ ¬ s.Held stream
  running : s.ending = none ↔ s.alive child ≠ none
  ending : ∀ ending, s.ending = some ending ↔ .exit child ending ∈ moves
  /-- A child that the deadline has caught will end. -/
  doomed : s.supervisor.phase = .reaping → ∀ p, s.alive child = some p → p.doomed = true
  settled : s.supervisor.settle = s.supervisor
  stands : Stands moves s.log s.supervisor

theorem sound_start : Sound [] start where
  bytes := by
    intro stream
    cases stream <;> rfl
  closed := by
    intro stream h
    cases stream <;> cases h
  running := by simp [start]
  ending := by simp [start]
  doomed := by
    intro h
    cases h
  settled := rfl
  stands := ⟨rfl, by simp, rfl⟩

theorem alive_tell_eq_none_iff {e : Event} {pid : ℕ} :
    (s.tell e).alive pid = none ↔ s.alive pid = none := by
  rw [tell]
  split
  · exact Option.map_eq_none_iff
  · rfl

/-- A reader that takes from a stream has not found its end. -/
theorem Sound.not_atEnd_of_unread (h : Sound moves s) {stream : Stream} {bytes rest : Bytes}
    (hunread : s.unread stream = bytes ++ rest) (hbytes : bytes ≠ []) :
    (s.supervisor.reader stream).atEnd = false := by
  cases hend : (s.supervisor.reader stream).atEnd with
  | false => rfl
  | true =>
      have hnone := (h.closed stream hend).1
      simp [hunread, hbytes] at hnone

theorem Sound.bytes_step (h : Sound moves s) (hstep : Step s m t) (stream : Stream) :
    (t.supervisor.reader stream).bytes ++ t.unread stream = written stream (moves ++ [m]) := by
  rw [hstep.reader stream, written_append, written_singleton, ← h.bytes stream]
  cases hstep with
  | @write pid p target bytes hp hholds =>
      by_cases heq : stream = target
      · simp [heq, Move.readBy, Move.writes]
      · simp [Function.update_of_ne heq, Move.readBy, Move.writes, Ne.symm heq]
  | @read target bytes rest hopen hunread hbytes =>
      have hend := h.not_atEnd_of_unread hunread hbytes
      by_cases heq : stream = target
      · subst heq
        simp [hend, hunread, Move.readBy, Move.writes]
      · simp [heq, Move.readBy, Move.writes]
  | @eof target =>
      by_cases heq : stream = target <;> simp [heq, Move.readBy, Move.writes]
  | _ => simp [Move.readBy, Move.writes, setProcess]

theorem Sound.closed_step (h : Sound moves s) (hstep : Step s m t) (stream : Stream)
    (hend : (t.supervisor.reader stream).atEnd = true) : t.unread stream = [] ∧ ¬ t.Held stream := by
  rw [hstep.reader stream] at hend
  -- either the end was known before, and nobody has written since, or it is found now
  by_cases hbefore : (s.supervisor.reader stream).atEnd = true
  · obtain ⟨hunread, hheld⟩ := h.closed stream hbefore
    refine ⟨?_, (hstep.not_held hheld).1⟩
    cases hstep with
    | @write pid p target bytes hp hholds =>
        have hne : stream ≠ target := by
          rintro rfl
          exact hheld ⟨pid, p, hp, hholds⟩
        simpa [Function.update_of_ne hne] using hunread
    | @read target bytes rest _ htarget hbytes =>
        have hne : stream ≠ target := by
          rintro rfl
          simp [htarget, hbytes] at hunread
        simpa [Function.update_of_ne hne] using hunread
    | _ => exact hunread
  · cases hstep with
    | @read target bytes rest =>
        rw [Move.readBy] at hend
        split at hend <;> exact absurd hend hbefore
    | @eof target _ _ hunread hheld =>
        have heq : stream = target := by
          by_contra hne
          rw [Move.readBy, if_neg hne] at hend
          exact hbefore hend
        subst heq
        exact ⟨hunread, mt Held.of_tell hheld⟩
    | _ => exact absurd hend hbefore

theorem Sound.running_step (h : Sound moves s) (hstep : Step s m t) :
    t.ending = none ↔ t.alive child ≠ none := by
  have hs := h.running
  cases hstep with
  | @write => exact hs
  | elapse => exact hs
  | @close pid p _ hp | @regroup pid p _ hp =>
      by_cases heq : pid = child
      · subst heq
        simpa [setProcess, hp] using hs
      · simpa [setProcess, Function.update_of_ne (Ne.symm heq)] using hs
  | @fork pid p new _ _ hnew _ => simpa [setProcess, Function.update_of_ne hnew.symm] using hs
  | @exit pid p ending hp =>
      by_cases heq : pid = child
      · simp [setProcess, heq]
      · simpa [setProcess, heq, Function.update_of_ne (Ne.symm heq)] using hs
  | _ => simpa [alive_tell_eq_none_iff] using hs

theorem Sound.ending_step (h : Sound moves s) (hstep : Step s m t) (ending : Ending) :
    t.ending = some ending ↔ .exit child ending ∈ moves ++ [m] := by
  have hs := h.ending ending
  cases hstep with
  | @exit pid p last hp =>
      by_cases heq : pid = child
      · subst heq
        -- the child runs until now, so that it has not ended before
        have hnone : s.ending = none := h.running.mpr (by simp [hp])
        have hfirst : Move.exit child ending ∉ moves := by
          rw [← hs, hnone]
          simp
        simp [hfirst, eq_comm]
      · simpa [heq, Ne.symm heq, setProcess] using hs
  | _ => simpa [setProcess] using hs

/-- A doom is not taken back. -/
theorem Step.doomed (h : Step s m t) (hs : ∀ p, s.alive child = some p → p.doomed = true)
    (p : Process) (hp : t.alive child = some p) : p.doomed = true := by
  cases h with
  | write | elapse => exact hs p hp
  | @close pid q _ hq | @regroup pid q _ hq =>
      by_cases heq : pid = child
      · subst heq
        simp only [setProcess, Function.update_self, Option.some.injEq] at hp
        subst hp
        exact hs q hq
      · exact hs p (by simpa [setProcess, Function.update_of_ne (Ne.symm heq)] using hp)
  | @fork pid q new _ _ hnew _ =>
      exact hs p (by simpa [setProcess, Function.update_of_ne hnew.symm] using hp)
  | @exit pid q ending hq =>
      by_cases heq : pid = child
      · simp [setProcess, heq] at hp
      · exact hs p (by simpa [setProcess, Function.update_of_ne (Ne.symm heq)] using hp)
  | _ =>
      obtain ⟨q, hq, -, hdoomed⟩ := exists_of_alive_tell hp
      exact hdoomed (hs q hq)

theorem Sound.doomed_step (h : Sound moves s) (hstep : Step s m t)
    (hphase : t.supervisor.phase = .reaping) (p : Process) (hp : t.alive child = some p) :
    p.doomed = true := by
  by_cases hbefore : s.supervisor.phase = .reaping
  · exact hstep.doomed (h.doomed hbefore) p hp
  · cases hstep with
    | read hopen _ _ =>
        rw [supervisor_tell, Supervisor.handle_wrote hopen] at hphase
        have hread := Supervisor.phase_of_settle_reaping hphase
        exact absurd (by simpa using hread) hbefore
    | eof hopen _ _ _ =>
        rw [supervisor_tell, Supervisor.handle_closed hopen] at hphase
        have hread := Supervisor.phase_of_settle_reaping hphase
        exact absurd (by simpa using hread) hbefore
    | collect hrace _ =>
        have hracing := hrace.resolve_right hbefore
        rw [supervisor_tell, Supervisor.handle_ended_of_racing hracing] at hphase
        cases Supervisor.phase_of_settle_reaping hphase
    | deadline hracing _ =>
        -- the kill reaches the child in whatever group it is
        simp only [tell, Supervisor.handle_deadline_of_racing hracing, List.mem_singleton, if_pos] at hp
        obtain ⟨q, -, rfl⟩ := Option.map_eq_some_iff.mp hp
        simp
    | @grace c graces hdraining =>
        cases graces with
        | zero =>
            rw [supervisor_tell, Supervisor.handle_grace_first hdraining] at hphase
            cases Supervisor.phase_of_settle_reaping hphase
        | succ graces =>
            rw [supervisor_tell, Supervisor.handle_grace_last hdraining] at hphase
            cases hphase
    | _ => exact absurd hphase hbefore

theorem Sound.settled_step (h : Sound moves s) (hstep : Step s m t) :
    t.supervisor.settle = t.supervisor := by
  cases hm : m.event? with
  | none => rw [(hstep.untold hm).1, h.settled]
  | some e => rw [(hstep.told hm).1, Supervisor.settle_handle h.settled]

theorem Sound.stands_step (h : Sound moves s) (hstep : Step s m t) :
    Stands (moves ++ [m]) t.log t.supervisor := by
  have hs := h.stands
  cases hstep with
  | @read target bytes rest hopen _ _ =>
      rw [supervisor_tell, log_tell, Supervisor.handle_wrote hopen, List.append_nil]
      exact ((hs.snoc (by simp) (by simp)).read hopen _).settle
  | @eof target hopen _ _ _ =>
      rw [supervisor_tell, log_tell, Supervisor.handle_closed hopen, List.append_nil]
      exact ((hs.snoc (by simp) (by simp)).read hopen _).settle
  | @collect ending hphase hending =>
      have hexit := (h.ending ending).mp hending
      obtain hphase | hphase := hphase
      · -- The end of the child wins the race, and the kill is the answer to it.
        rw [supervisor_tell, log_tell, Supervisor.handle_ended_of_racing hphase]
        rw [Stands, hphase] at hs
        obtain ⟨hlog, hdeadline, hgrace⟩ := hs
        apply Stands.settle
        refine ⟨?_, by simpa using hgrace⟩
        exact
          { killed := by simp
            reaped := by simp [hdeadline]
            timedOut := by simp [hdeadline, ending.completion_ne_timedOut]
            ended := ⟨ending, by simp, by simp [hexit], fun _ => rfl⟩ }
      · -- The deadline has won before, so that the ending is collected and not looked at.
        rw [supervisor_tell, log_tell, Supervisor.handle_ended_of_reaping hphase]
        rw [Stands, hphase] at hs
        obtain ⟨hlog, hdeadline, hgrace⟩ := hs
        apply Stands.settle
        refine ⟨?_, by simpa using hgrace⟩
        exact
          { killed := by simp [hlog]
            reaped := by simp
            timedOut := by simp [hdeadline]
            ended := ⟨ending, by simp, by simp [hexit],
              fun hno => absurd hdeadline (by simpa using hno)⟩ }
  | deadline hphase _ =>
      rw [supervisor_tell, log_tell, Supervisor.handle_deadline_of_racing hphase]
      rw [Stands, hphase] at hs
      obtain ⟨hlog, -, hgrace⟩ := hs
      exact ⟨by simp [hlog], by simp, by simpa using hgrace⟩
  | @grace c graces hphase =>
      rw [Stands, hphase] at hs
      obtain ⟨hdecided, hgrace⟩ := hs
      have hmore (done : List Action) : Decided (moves ++ [.grace]) (s.log ++ done) c :=
        hdecided.append (by simp)
      cases graces with
      | zero =>
          rw [supervisor_tell, log_tell, Supervisor.handle_grace_first hphase]
          exact Stands.settle ⟨hmore _, by simp [hgrace]⟩
      | succ graces =>
          rw [supervisor_tell, log_tell, Supervisor.handle_grace_last hphase]
          -- The streams are given up, but then both half seconds are over.
          refine ⟨hmore _, fun hcount => ?_⟩
          simp only [List.count_append, hgrace, List.count_singleton_self] at hcount
          omega
  | _ => exact hs.snoc (by simp) (by simp)

/-- **One move keeps the account.** -/
theorem Sound.step (h : Sound moves s) (hstep : Step s m t) : Sound (moves ++ [m]) t where
  bytes := h.bytes_step hstep
  closed := h.closed_step hstep
  running := h.running_step hstep
  ending := h.ending_step hstep
  doomed := h.doomed_step hstep
  settled := h.settled_step hstep
  stands := h.stands_step hstep

/-- **Every run keeps the account.** -/
theorem Run.sound (h : Run start moves s) : Sound moves s := by
  induction h with
  | refl => exact sound_start
  | snoc _ hstep ih => exact ih.step hstep

end Scene

end Conformance
