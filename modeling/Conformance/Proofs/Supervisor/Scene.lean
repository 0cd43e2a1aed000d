import Mathlib
import Conformance.Supervisor

set_option autoImplicit false

/-! # What a supervisor is told

A supervisor is told events, but which events can come in which order is not up to it. `Scene` is a
supervisor with all that happens around it: the child, the processes that the child starts, the group
that can be killed as a whole, the two pipes, and the clock. A process writes, closes a pipe, starts
another process, leaves the group and ends whenever it likes; `Scene.Step` says what can happen next,
and a `Scene.Run` is any order of such moves.

The first half of this module says what one event does to a supervisor.
-/

namespace Conformance

namespace Supervisor

/-! ## What one event does -/

def AtEnd (s : Supervisor) : Prop := ∀ stream, (s.reader stream).atEnd = true

/-- **The completion, once it is decided**: as soon as the race is over. -/
def completion? (s : Supervisor) : Option Completion :=
  match s.phase with
  | .racing | .failed _ => none
  | .reaping => some .timedOut
  | .draining completion _ => some completion
  | .finished execution => some execution.completion

variable (s : Supervisor)

theorem reader_setReader (stream other : Stream) (r : Reader) :
    (s.setReader stream r).reader other = if other = stream then r else s.reader other := by
  cases stream <;> cases other <;> rfl

@[simp] theorem phase_setReader (stream : Stream) (r : Reader) :
    (s.setReader stream r).phase = s.phase := by
  cases stream <;> rfl

@[simp] theorem phase_read (e : Event) : (s.read e).phase = s.phase := by
  cases e with
  | wrote stream bytes =>
      rw [read]
      split <;> simp
  | closed stream => exact phase_setReader _ _ _
  | _ => rfl

theorem atEnd_iff : s.AtEnd ↔ (s.stdout.atEnd && s.stderr.atEnd) = true := by
  rw [Bool.and_eq_true]
  constructor
  · intro h
    exact ⟨h .stdout, h .stderr⟩
  · rintro ⟨hout, herr⟩ (_ | _)
    · exact hout
    · exact herr

theorem settle_cases :
    (s.settle = s ∧ ∀ c graces, s.phase = .draining c graces → ¬ s.AtEnd) ∨
    ∃ c graces, s.phase = .draining c graces ∧ s.AtEnd ∧
      s.settle = { s with phase := .finished ⟨c, s.stdout.bytes, s.stderr.bytes⟩ } := by
  by_cases hphase : ∃ c graces, s.phase = .draining c graces
  · obtain ⟨c, graces, hphase⟩ := hphase
    by_cases hend : s.AtEnd
    · refine Or.inr ⟨c, graces, hphase, hend, ?_⟩
      simp only [settle, hphase, if_pos (s.atEnd_iff.mp hend)]
    · refine Or.inl ⟨?_, fun _ _ _ => hend⟩
      simp only [settle, hphase, if_neg (mt s.atEnd_iff.mpr hend)]
  · refine Or.inl ⟨?_, fun c graces h => absurd ⟨c, graces, h⟩ hphase⟩
    rw [settle]
    split
    · rename_i c graces h
      exact absurd ⟨c, graces, h⟩ hphase
    · rfl

@[simp] theorem reader_settle (stream : Stream) : s.settle.reader stream = s.reader stream := by
  obtain ⟨h, -⟩ | ⟨c, graces, -, -, h⟩ := s.settle_cases
  · rw [h]
  · rw [h]
    cases stream <;> rfl

@[simp] theorem settle_settle : s.settle.settle = s.settle := by
  obtain ⟨h, -⟩ | ⟨c, graces, -, -, h⟩ := s.settle_cases
  · rw [h, h]
  · rw [h]
    rfl

@[simp] theorem completion?_settle : s.settle.completion? = s.completion? := by
  obtain ⟨h, -⟩ | ⟨c, graces, hphase, -, h⟩ := s.settle_cases
  · rw [h]
  · simp only [h, completion?, hphase]

variable {s}

theorem phase_of_settle_reaping (h : s.settle.phase = .reaping) : s.phase = .reaping := by
  obtain ⟨hsame, -⟩ | ⟨c, graces, -, -, hsettle⟩ := s.settle_cases
  · rwa [hsame] at h
  · rw [hsettle] at h
    cases h

theorem handle_of_open (h : s.result? = none) (e : Event) :
    s.handle e = (((s.read e).decide e).1.settle, ((s.read e).decide e).2) := by
  rw [handle, h]

theorem handle_of_result {result : Except Error Execution} (h : s.result? = some result) (e : Event) :
    s.handle e = (s, []) := by
  rw [handle, h]

theorem settle_handle (h : s.settle = s) (e : Event) : (s.handle e).1.settle = (s.handle e).1 := by
  cases hresult : s.result? with
  | none => rw [handle_of_open hresult, settle_settle]
  | some result => rw [handle_of_result hresult, h]

theorem reader_decide (e : Event) (stream : Stream) :
    (s.decide e).1.reader stream = s.reader stream := by
  cases e <;> simp only [decide] <;> first | rfl | (split <;> cases stream <;> rfl)

theorem reader_handle (h : s.result? = none) (e : Event) (stream : Stream) :
    (s.handle e).1.reader stream = (s.read e).reader stream := by
  rw [handle_of_open h, reader_settle, reader_decide]

theorem result?_eq_none_of_phase (h : s.phase = .racing ∨ s.phase = .reaping ∨
    ∃ c graces, s.phase = .draining c graces) : s.result? = none := by
  obtain h | h | ⟨c, graces, h⟩ := h <;> rw [result?, h]

/-- A reader's event changes what was read, and may settle the supervision by that. -/
theorem handle_wrote (h : s.result? = none) (stream : Stream) (bytes : Bytes) :
    s.handle (.wrote stream bytes) = ((s.read (.wrote stream bytes)).settle, []) :=
  handle_of_open h _

theorem handle_closed (h : s.result? = none) (stream : Stream) :
    s.handle (.closed stream) = ((s.read (.closed stream)).settle, []) :=
  handle_of_open h _

theorem handle_ended_of_racing (h : s.phase = .racing) (ending : Ending) :
    s.handle (.ended ending) =
      ({ s with phase := .draining ending.completion 0 }.settle, [.killGroup]) := by
  rw [handle_of_open (result?_eq_none_of_phase (.inl h))]
  simp only [read, decide, h]

theorem handle_ended_of_reaping (h : s.phase = .reaping) (ending : Ending) :
    s.handle (.ended ending) = ({ s with phase := .draining .timedOut 0 }.settle, [.reap]) := by
  rw [handle_of_open (result?_eq_none_of_phase (.inr (.inl h)))]
  simp only [read, decide, h]

theorem handle_deadline_of_racing (h : s.phase = .racing) :
    s.handle .deadline = ({ s with phase := .reaping }, [.killGroup]) := by
  rw [handle_of_open (result?_eq_none_of_phase (.inl h))]
  simp only [read, decide, h]
  rfl

/-- After the first half second the group is killed once more. -/
theorem handle_grace_first {c : Completion} (h : s.phase = .draining c 0) :
    s.handle .grace = ({ s with phase := .draining c 1 }.settle, [.killGroup]) := by
  rw [handle_of_open (result?_eq_none_of_phase (.inr (.inr ⟨c, 0, h⟩)))]
  simp only [read, decide, h]

/-- After the second one both streams are given up. -/
theorem handle_grace_last {c : Completion} {graces : ℕ} (h : s.phase = .draining c (graces + 1)) :
    s.handle .grace = ({ s with phase := .finished ⟨c, [], []⟩ }, []) := by
  rw [handle_of_open (result?_eq_none_of_phase (.inr (.inr ⟨c, _, h⟩)))]
  simp only [read, decide, h]
  rfl

/-- A decided completion is not decided again. -/
theorem completion?_decide {c : Completion} (h : s.completion? = some c) (e : Event) :
    (s.decide e).1.completion? = some c := by
  cases hphase : s.phase with
  | racing => simp [completion?, hphase] at h
  | failed => simp [completion?, hphase] at h
  | reaping =>
      have hc : Completion.timedOut = c := by simpa [completion?, hphase] using h
      cases e <;> simp [decide, hphase, completion?, hc]
  | draining d graces =>
      have hc : d = c := by simpa [completion?, hphase] using h
      cases e with
      | grace => cases graces <;> simp [decide, hphase, completion?, hc]
      | _ => simp [decide, hphase, completion?, hc]
  | finished x =>
      have hc : x.completion = c := by simpa [completion?, hphase] using h
      cases e <;> simp [decide, hphase, completion?, hc]

/-- **What the race has decided, no later event changes.** -/
theorem completion?_handle {c : Completion} (h : s.completion? = some c) (e : Event) :
    (s.handle e).1.completion? = some c := by
  cases hresult : s.result? with
  | none =>
      have hread : (s.read e).completion? = some c := by rwa [completion?, phase_read]
      rw [handle_of_open hresult, completion?_settle]
      exact completion?_decide hread e
  | some result => rwa [handle_of_result hresult]

theorem afterAll_append (s : Supervisor) (es fs : List Event) :
    s.afterAll (es ++ fs) =
      (((s.afterAll es).1.afterAll fs).1, (s.afterAll es).2 ++ ((s.afterAll es).1.afterAll fs).2) := by
  induction es generalizing s with
  | nil => rfl
  | cons e rest ih => simp only [List.cons_append, afterAll, ih, List.append_assoc]

end Supervisor

/-! ## A supervisor and its processes -/

/-- One process that runs in a scene. -/
structure Process where
  inGroup : Bool
  doomed : Bool
  holds : Stream → Bool

/-- **A supervisor with all that happens around it.** -/
structure Scene where
  /-- The processes that run, by their number. -/
  alive : ℕ → Option Process
  ending : Option Ending
  /-- The deadline has passed. -/
  elapsed : Bool
  /-- What was written to a stream and not read yet. -/
  unread : Stream → Bytes
  supervisor : Supervisor
  /-- What the supervisor has done, in this order. -/
  log : List Action

namespace Scene

def child : ℕ := 0

/-- Right after the launch the child is alone, leads a group and holds both streams. -/
def start : Scene where
  alive pid := if pid = child then some ⟨true, false, fun _ => true⟩ else none
  ending := none
  elapsed := false
  unread _ := []
  supervisor := .start
  log := []

/-- Some process can still write to a stream. -/
def Held (s : Scene) (stream : Stream) : Prop :=
  ∃ pid p, s.alive pid = some p ∧ p.holds stream = true

def setProcess (s : Scene) (pid : ℕ) (p : Option Process) : Scene :=
  { s with alive := Function.update s.alive pid p }

/-- The processes once the group is killed, and the child in whatever group it is. -/
def killed (s : Scene) (pid : ℕ) : Option Process :=
  (s.alive pid).map fun p =>
    if pid = child ∨ p.inGroup = true then { p with doomed := true } else p

/-- Tells the supervisor an event and does what it answers. -/
def tell (s : Scene) (e : Event) : Scene :=
  { s with
    supervisor := (s.supervisor.handle e).1
    log := s.log ++ (s.supervisor.handle e).2
    alive := if .killGroup ∈ (s.supervisor.handle e).2 then s.killed else s.alive }

end Scene

/-- One move in a scene. -/
inductive Move where
  | write (pid : ℕ) (stream : Stream) (bytes : Bytes)
  | close (pid : ℕ) (stream : Stream)
  /-- A process starts another one, which is like itself. -/
  | fork (pid new : ℕ)
  /-- A process leaves the group, or joins it again. -/
  | regroup (pid : ℕ) (inGroup : Bool)
  | exit (pid : ℕ) (ending : Ending)
  /-- The time of the deadline comes. -/
  | elapse
  /-- A reader takes some of what is unread. -/
  | read (stream : Stream) (bytes : Bytes)
  /-- A reader finds the end of a stream. -/
  | eof (stream : Stream)
  /-- The supervisor is told how the child has ended: this reaps it. -/
  | collect (ending : Ending)
  /-- The supervisor takes the branch of the deadline. -/
  | deadline
  /-- Half a second is over while the streams are collected. -/
  | grace
  deriving DecidableEq

/-- The event that a move tells the supervisor, if it tells one. -/
def Move.event? : Move → Option Event
  | .read stream bytes => some (.wrote stream bytes)
  | .eof stream => some (.closed stream)
  | .collect ending => some (.ended ending)
  | .deadline => some .deadline
  | .grace => some .grace
  | _ => none

/-- A move that is due as soon as it is possible: time passes, and the supervisor and its readers take
what is there. -/
def Move.Due : Move → Prop
  | .elapse | .read _ _ | .eof _ | .collect _ | .deadline | .grace => True
  | _ => False

/-- What a move does to the reader of a stream. -/
def Move.readBy (stream : Stream) (r : Reader) : Move → Reader
  | .read target bytes =>
    if stream = target ∧ r.atEnd = false then { r with bytes := r.bytes ++ bytes } else r
  | .eof target => if stream = target then { r with atEnd := true } else r
  | _ => r

def Move.writes (stream : Stream) : Move → Bytes
  | .write _ target bytes => if target = stream then bytes else []
  | _ => []

/-- **All that was written to a stream**, by any process, in the order of the writes. -/
def written (stream : Stream) (moves : List Move) : Bytes := moves.flatMap (Move.writes stream)

@[simp] theorem written_append (stream : Stream) (moves more : List Move) :
    written stream (moves ++ more) = written stream moves ++ written stream more :=
  List.flatMap_append

@[simp] theorem written_singleton (stream : Stream) (m : Move) :
    written stream [m] = m.writes stream := by
  simp [written]

namespace Scene

/-- **What can happen next.** The race is open: once the child has ended and its deadline has passed,
either of the two may be noticed first. Waiting for the child does not fail. -/
inductive Step (s : Scene) : Move → Scene → Prop
  | write {pid : ℕ} {p : Process} {stream : Stream} (bytes : Bytes) :
      s.alive pid = some p → p.holds stream = true →
      Step s (.write pid stream bytes)
        { s with unread := Function.update s.unread stream (s.unread stream ++ bytes) }
  | close {pid : ℕ} {p : Process} (stream : Stream) :
      s.alive pid = some p →
      Step s (.close pid stream)
        (s.setProcess pid (some { p with holds := Function.update p.holds stream false }))
  | fork {pid : ℕ} {p : Process} {new : ℕ} :
      s.alive pid = some p → p.doomed = false → new ≠ child → s.alive new = none →
      Step s (.fork pid new) (s.setProcess new (some p))
  | regroup {pid : ℕ} {p : Process} (inGroup : Bool) :
      s.alive pid = some p →
      Step s (.regroup pid inGroup) (s.setProcess pid (some { p with inGroup := inGroup }))
  | exit {pid : ℕ} {p : Process} (ending : Ending) :
      s.alive pid = some p →
      Step s (.exit pid ending)
        { s.setProcess pid none with ending := if pid = child then some ending else s.ending }
  | elapse : s.elapsed = false → Step s .elapse { s with elapsed := true }
  | read {stream : Stream} {bytes rest : Bytes} :
      s.supervisor.result? = none → s.unread stream = bytes ++ rest → bytes ≠ [] →
      Step s (.read stream bytes)
        ({ s with unread := Function.update s.unread stream rest }.tell (.wrote stream bytes))
  | eof {stream : Stream} :
      s.supervisor.result? = none → (s.supervisor.reader stream).atEnd = false →
      s.unread stream = [] → ¬ s.Held stream →
      Step s (.eof stream) (s.tell (.closed stream))
  | collect {ending : Ending} :
      s.supervisor.phase = .racing ∨ s.supervisor.phase = .reaping → s.ending = some ending →
      Step s (.collect ending) (s.tell (.ended ending))
  | deadline : s.supervisor.phase = .racing → s.elapsed = true → Step s .deadline (s.tell .deadline)
  | grace {c : Completion} {graces : ℕ} :
      s.supervisor.phase = .draining c graces → Step s .grace (s.tell .grace)

/-- **Any order of moves**, from one scene to another. -/
inductive Run (s : Scene) : List Move → Scene → Prop
  | refl : Run s [] s
  | snoc {t u : Scene} {moves : List Move} {m : Move} :
      Run s moves t → Step t m u → Run s (moves ++ [m]) u

variable {s t u : Scene} {m : Move} {moves more : List Move}

theorem Run.append (h : Run s moves t) (hmore : Run t more u) : Run s (moves ++ more) u := by
  induction hmore with
  | refl => simpa using h
  | snoc _ hstep ih =>
      rw [← List.append_assoc]
      exact .snoc ih hstep

theorem Run.cons (h : Step s m t) (hmore : Run t more u) : Run s (m :: more) u :=
  (Run.refl.snoc h).append hmore

/-! ## What a move leaves alone -/

@[simp] theorem unread_tell (e : Event) : (s.tell e).unread = s.unread := rfl

@[simp] theorem ending_tell (e : Event) : (s.tell e).ending = s.ending := rfl

@[simp] theorem supervisor_tell (e : Event) : (s.tell e).supervisor = (s.supervisor.handle e).1 := rfl

@[simp] theorem log_tell (e : Event) : (s.tell e).log = s.log ++ (s.supervisor.handle e).2 := rfl

/-- A killed process is as it was, but for its doom. -/
theorem exists_of_alive_tell {e : Event} {pid : ℕ} {p : Process} (h : (s.tell e).alive pid = some p) :
    ∃ q, s.alive pid = some q ∧ q.holds = p.holds ∧ (q.doomed = true → p.doomed = true) := by
  rw [tell] at h
  split at h
  · obtain ⟨q, hq, rfl⟩ := Option.map_eq_some_iff.mp h
    refine ⟨q, hq, ?_, ?_⟩ <;> split <;> simp
  · exact ⟨p, h, rfl, id⟩

theorem Held.of_tell {e : Event} {stream : Stream} (h : (s.tell e).Held stream) : s.Held stream := by
  obtain ⟨pid, p, hp, hholds⟩ := h
  obtain ⟨q, hq, hsame, -⟩ := exists_of_alive_tell hp
  exact ⟨pid, q, hq, by rwa [hsame]⟩

/-- A move that tells no event leaves the supervisor and its log alone. -/
theorem Step.untold (h : Step s m t) (hm : m.event? = none) :
    t.supervisor = s.supervisor ∧ t.log = s.log := by
  cases h <;> first | exact ⟨rfl, rfl⟩ | exact absurd hm (by simp [Move.event?])

/-- A move that tells an event passes it on, and the log grows by the answer. -/
theorem Step.told {e : Event} (h : Step s m t) (hm : m.event? = some e) :
    t.supervisor = (s.supervisor.handle e).1 ∧ t.log = s.log ++ (s.supervisor.handle e).2 := by
  cases h <;> simp only [Move.event?, Option.some.injEq, reduceCtorEq] at hm <;> subst hm <;>
    exact ⟨rfl, rfl⟩

theorem Step.elapsed_elapse (h : Step s .elapse t) : s.elapsed = false ∧ t.elapsed = true := by
  cases h with
  | elapse helapsed => exact ⟨helapsed, rfl⟩

theorem Step.elapsed_eq (h : Step s m t) (hm : m ≠ .elapse) : t.elapsed = s.elapsed := by
  cases h with
  | elapse => exact absurd rfl hm
  | _ => rfl

/-- **Only the two moves of a reader change what was read.** -/
theorem Step.reader (h : Step s m t) (stream : Stream) :
    t.supervisor.reader stream = m.readBy stream (s.supervisor.reader stream) := by
  cases h with
  | @read target bytes rest hopen _ _ =>
      rw [supervisor_tell, Supervisor.reader_handle hopen, Supervisor.read, Move.readBy]
      by_cases heq : stream = target
      · subst heq
        cases (s.supervisor.reader stream).atEnd <;> simp [Supervisor.reader_setReader]
      · split <;> simp [heq, Supervisor.reader_setReader]
  | @eof target hopen _ _ _ =>
      rw [supervisor_tell, Supervisor.reader_handle hopen, Supervisor.read, Move.readBy,
        Supervisor.reader_setReader]
      by_cases heq : stream = target
      · subst heq
        simp
      · simp [heq]
  | collect hphase _ =>
      exact Supervisor.reader_handle
        (Supervisor.result?_eq_none_of_phase (hphase.imp_right .inl)) _ stream
  | deadline hphase _ =>
      exact Supervisor.reader_handle (Supervisor.result?_eq_none_of_phase (.inl hphase)) _ stream
  | grace hphase =>
      exact Supervisor.reader_handle
        (Supervisor.result?_eq_none_of_phase (.inr (.inr ⟨_, _, hphase⟩))) _ stream
  | _ => rfl

/-- **The supervisor of a run is the supervisor after the events of the run**, and its log is all that it
answered. -/
theorem Run.afterAll (h : Run s moves t) :
    t.supervisor = (s.supervisor.afterAll (moves.filterMap Move.event?)).1 ∧
      t.log = s.log ++ (s.supervisor.afterAll (moves.filterMap Move.event?)).2 := by
  induction h with
  | refl => exact ⟨rfl, (List.append_nil _).symm⟩
  | @snoc t u moves m _ hstep ih =>
      obtain ⟨hsupervisor, hlog⟩ := ih
      rw [List.filterMap_append, Supervisor.afterAll_append]
      cases hm : m.event? with
      | none =>
          obtain ⟨hs, hl⟩ := hstep.untold hm
          simp [hm, hs, hl, hsupervisor, hlog, Supervisor.afterAll]
      | some e =>
          obtain ⟨hs, hl⟩ := hstep.told hm
          simp [hm, hs, hl, hsupervisor, hlog, Supervisor.afterAll]

/-- What is decided or has a result in some state of a run is so in every later one. -/
theorem Run.completion?_eq (h : Run s moves t) {c : Completion}
    (hc : s.supervisor.completion? = some c) : t.supervisor.completion? = some c := by
  induction h with
  | refl => exact hc
  | @snoc t u moves m _ hstep ih =>
      cases hm : m.event? with
      | none => rw [(hstep.untold hm).1, ih]
      | some e => rw [(hstep.told hm).1, Supervisor.completion?_handle ih]

theorem Run.result?_eq (h : Run s moves t) {result : Except Error Execution}
    (hresult : s.supervisor.result? = some result) : t.supervisor.result? = some result := by
  induction h with
  | refl => exact hresult
  | @snoc t u moves m _ hstep ih =>
      cases hm : m.event? with
      | none => rw [(hstep.untold hm).1, ih]
      | some e => rw [(hstep.told hm).1, Supervisor.handle_of_result ih, ih]

end Scene

end Conformance
