import Mathlib
import Conformance.Proofs.Supervisor.Result

set_option autoImplicit false

/-! # A supervisor and any system

What an operating system does while a case is run is, as far as the run can tell, a `Behaviour`: whether
the script can be opened, whether the interpreter can be launched, and from then on one event after the
other. The events may come in any order and hold anything; a behaviour only keeps to its clocks and does
not lose a process that was killed (`Phase.Awaits`).

That is enough for a result (`Behaviour.exists_result`). Which one it is, the first event decides that can
win the race (`Behaviour.WonBy`). The streams are those that were read if both came to their end in
time, and otherwise they are given up (`Behaviour.Collected`).
-/

namespace Conformance

/-- **What a supervisor can count on in a phase.** A race is decided at the deadline at the latest, a
killed process ends or cannot be waited for any more, and a half second passes. -/
def Phase.Awaits : Phase → Event → Prop
  | .racing, .ended _ => True
  | .racing, .lost _ => True
  | .racing, .deadline => True
  | .reaping, .ended _ => True
  | .reaping, .lost _ => True
  | .draining _ _, .grace => True
  | _, _ => False

namespace Supervisor

variable {events : ℕ → Event} {m n : ℕ}

def afterFirst (events : ℕ → Event) (n : ℕ) : Supervisor :=
  (start.afterAll ((List.range n).map events)).1

theorem afterFirst_succ (events : ℕ → Event) (n : ℕ) :
    afterFirst events (n + 1) = ((afterFirst events n).handle (events n)).1 := by
  rw [afterFirst, List.range_succ, List.map_append, afterAll_append]
  rfl

/-- **A result stands.** -/
theorem afterFirst_of_result {result : Except Error Execution}
    (hresult : (afterFirst events m).result? = some result) (h : m ≤ n) :
    afterFirst events n = afterFirst events m := by
  induction n, h using Nat.le_induction with
  | base => rfl
  | succ n _ ih => rw [afterFirst_succ, ih, handle_of_result hresult]

end Supervisor

/-- **What an operating system does while a case is run**, as far as the run can tell. -/
structure Behaviour where
  opening : Option IoError
  launching : Option IoError
  events : ℕ → Event
  /-- What the supervisor counts on does happen. -/
  timely : ∀ n, (Supervisor.afterFirst events n).result? = none →
    ∃ k, n ≤ k ∧ (Supervisor.afterFirst events n).phase.Awaits (events k)

def Event.Decides : Event → Prop
  | .ended _ | .lost _ | .deadline => True
  | _ => False

/-! ## Bytes of a stream -/

def Event.writes (stream : Stream) : Event → Bytes
  | .wrote target bytes => if target = stream then bytes else []
  | _ => []

/-- What was written to a stream before it was closed. -/
def heard (stream : Stream) (events : List Event) : Bytes :=
  (events.takeWhile (· ≠ .closed stream)).flatMap (Event.writes stream)

theorem heard_append_of_closed {stream : Stream} {events : List Event}
    (h : .closed stream ∈ events) (more : List Event) :
    heard stream (events ++ more) = heard stream events := by
  induction events with
  | nil => cases h
  | cons e events ih =>
      by_cases he : e = .closed stream
      · simp [heard, he]
      · have hmem := (List.mem_cons.mp h).resolve_left (Ne.symm he)
        have hrest := ih hmem
        simp only [heard] at hrest ⊢
        simp only [List.cons_append, List.takeWhile_cons, he, ne_eq, not_false_eq_true, decide_true,
          if_true, List.flatMap_cons, hrest]

theorem heard_append_of_open {stream : Stream} {events : List Event}
    (h : .closed stream ∉ events) (more : List Event) :
    heard stream (events ++ more) =
      events.flatMap (Event.writes stream) ++ heard stream more := by
  have hall : ∀ e ∈ events, decide (e ≠ .closed stream) = true := by
    intro e he
    have hne : e ≠ .closed stream := fun heq => h (heq ▸ he)
    simpa using hne
  rw [heard, List.takeWhile_append_of_pos hall, List.flatMap_append]
  rfl

theorem heard_append_singleton {stream : Stream} {events : List Event}
    (h : .closed stream ∉ events) (e : Event) :
    heard stream (events ++ [e]) = heard stream events ++ e.writes stream := by
  have hsame := heard_append_of_open h []
  rw [List.append_nil] at hsame
  rw [heard_append_of_open h, hsame]
  by_cases he : e = .closed stream
  · simp [heard, he, Event.writes]
  · simp [heard, he]

/-- **A reader has what there was to read of its stream.** -/
structure Reader.Hears (r : Reader) (stream : Stream) (events : List Event) : Prop where
  bytes : r.bytes = heard stream events
  atEnd : r.atEnd = true ↔ .closed stream ∈ events

namespace Supervisor

variable {s : Supervisor} {e : Event}

/-- What a reader does with an event: it takes what is written to its stream until that is closed. -/
theorem reader_read (s : Supervisor) (e : Event) (stream : Stream) :
    (s.read e).reader stream =
      { bytes := if (s.reader stream).atEnd then (s.reader stream).bytes
          else (s.reader stream).bytes ++ e.writes stream
        atEnd := if e = .closed stream then true else (s.reader stream).atEnd } := by
  cases e with
  | wrote target bytes =>
      by_cases heq : target = stream
      · subst heq
        cases hend : (s.reader target).atEnd <;>
          simp [read, reader_setReader, Event.writes, hend]
        rw [← hend]
      · have hne : stream ≠ target := Ne.symm heq
        cases hend : (s.reader target).atEnd <;>
          simp [read, reader_setReader, Event.writes, hend, heq, hne]
  | closed target =>
      by_cases heq : target = stream
      · subst heq
        simp [read, reader_setReader, Event.writes]
      · have hne : stream ≠ target := Ne.symm heq
        simp [read, reader_setReader, Event.writes, heq, hne]
  | _ => simp [read, Event.writes]

/-- **A reader keeps up with its stream.** -/
theorem hears_read {stream : Stream} {events : List Event}
    (h : (s.reader stream).Hears stream events) (e : Event) :
    ((s.read e).reader stream).Hears stream (events ++ [e]) := by
  rw [reader_read]
  have hatEnd : (if e = .closed stream then true else (s.reader stream).atEnd) = true ↔
      .closed stream ∈ events ++ [e] := by
    by_cases he : e = .closed stream
    · simp [he]
    · simp [he, h.atEnd, Ne.symm he]
  by_cases hclosed : .closed stream ∈ events
  · refine ⟨?_, hatEnd⟩
    rw [heard_append_of_closed hclosed, if_pos (h.atEnd.mpr hclosed), h.bytes]
  · refine ⟨?_, hatEnd⟩
    rw [heard_append_singleton hclosed, if_neg (mt h.atEnd.mp hclosed), h.bytes]

/-! ## Phases -/

theorem phase_decide (s : Supervisor) (e : Event) :
    (s.decide e).1.phase = s.phase ∨ Scene.rank (s.decide e).1.phase < Scene.rank s.phase := by
  cases hphase : s.phase with
  | draining c graces =>
      cases e with
      | grace => cases graces <;> simp [decide, hphase, Scene.rank]
      | _ => simp [decide, hphase]
  | _ => cases e <;> simp [decide, hphase, Scene.rank]

/-- **An event leaves a phase as it is or brings the result nearer.** -/
theorem phase_handle (s : Supervisor) (e : Event) :
    (s.handle e).1.phase = s.phase ∨ Scene.rank (s.handle e).1.phase < Scene.rank s.phase := by
  cases hresult : s.result? with
  | some result => exact .inl (by rw [handle_of_result hresult])
  | none =>
      have hdecide := (s.read e).phase_decide e
      rw [phase_read] at hdecide
      rw [handle_of_open hresult]
      obtain ⟨hsame, -⟩ | ⟨c, graces, hdraining, -, hsettle⟩ := ((s.read e).decide e).1.settle_cases
      · rwa [hsame]
      · -- What settles has been draining, and that is not the last phase.
        have hpos : 0 < Scene.rank ((s.read e).decide e).1.phase := by
          rw [hdraining]
          cases graces <;> simp [Scene.rank]
        refine .inr ?_
        rw [hsettle]
        obtain heq | hlt := hdecide
        · rwa [heq] at hpos
        · exact hpos.trans hlt

theorem rank_decide_lt (h : s.phase.Awaits e) :
    Scene.rank (s.decide e).1.phase < Scene.rank s.phase := by
  cases hphase : s.phase with
  | draining c graces =>
      rw [hphase] at h
      cases e with
      | grace => cases graces <;> simp [decide, hphase, Scene.rank]
      | _ => exact h.elim
  | _ =>
      rw [hphase] at h
      cases e <;> first | exact h.elim | simp [decide, hphase, Scene.rank]

/-- **What the supervisor counts on brings the result nearer.** -/
theorem rank_handle_lt (h : s.phase.Awaits e) :
    Scene.rank (s.handle e).1.phase < Scene.rank s.phase := by
  have hopen : s.result? = none := by
    cases hphase : s.phase with
    | finished x => simp [hphase, Phase.Awaits] at h
    | failed cause => simp [hphase, Phase.Awaits] at h
    | _ => rw [result?, hphase]
  rw [← phase_read s e] at h ⊢
  rw [handle_of_open hopen]
  exact (Scene.rank_settle_le _).trans_lt (rank_decide_lt h)

theorem decide_of_racing (h : s.phase = .racing) (he : ¬ e.Decides) : s.decide e = (s, []) := by
  cases e <;> first | exact absurd trivial he | simp [decide, h]

theorem phase_handle_of_racing (h : s.phase = .racing) (he : ¬ e.Decides) :
    (s.handle e).1.phase = .racing := by
  have hopen := result?_eq_none_of_phase (.inl h)
  rw [← phase_read s e] at h
  rw [handle_of_open hopen, decide_of_racing h he]
  obtain ⟨hsame, -⟩ | ⟨c, graces, hdraining, -, -⟩ := (s.read e).settle_cases
  · rw [hsame, h]
  · rw [h] at hdraining
    cases hdraining

theorem result?_handle_lost (h : s.phase = .racing) (cause : IoError) :
    (s.handle (.lost cause)).1.result? = some (.error (.lost cause)) := by
  rw [handle_of_open (result?_eq_none_of_phase (.inl h))]
  simp only [read, decide, h]
  rfl

theorem decide_of_draining {c : Completion} {graces : ℕ} (h : s.phase = .draining c graces)
    (he : e ≠ .grace) : s.decide e = (s, []) := by
  cases e <;> first | exact absurd rfl he | simp [decide, h]

/-- A result has the completion that was decided. -/
theorem execution_of_completion {c : Completion} {result : Except Error Execution}
    (hc : s.completion? = some c) (hresult : s.result? = some result) :
    ∃ x, result = .ok x ∧ x.completion = c := by
  cases hphase : s.phase with
  | finished x =>
      simp only [completion?, result?, hphase, Option.some.injEq] at hc hresult
      exact ⟨x, hresult.symm, hc⟩
  | failed cause => simp [completion?, hphase] at hc
  | _ => simp [result?, hphase] at hresult

end Supervisor

namespace Behaviour

variable (b : Behaviour) {m n : ℕ}

def first (n : ℕ) : List Event := (List.range n).map b.events

def after (n : ℕ) : Supervisor := .afterFirst b.events n

theorem first_succ (n : ℕ) : b.first (n + 1) = b.first n ++ [b.events n] := by
  simp [first, List.range_succ]

@[simp] theorem length_first (n : ℕ) : (b.first n).length = n := by
  simp [first]

theorem after_succ (n : ℕ) : b.after (n + 1) = ((b.after n).handle (b.events n)).1 :=
  Supervisor.afterFirst_succ b.events n

variable {b}

theorem first_isPrefix (h : m ≤ n) : b.first m <+: b.first n := by
  induction n, h using Nat.le_induction with
  | base => exact List.prefix_refl _
  | succ n _ ih =>
      rw [first_succ]
      exact ih.trans (List.prefix_append _ _)

theorem after_of_result {result : Except Error Execution} (hresult : (b.after m).result? = some result)
    (h : m ≤ n) : b.after n = b.after m := Supervisor.afterFirst_of_result hresult h

theorem open_of_le (hopen : (b.after n).result? = none) (h : m ≤ n) : (b.after m).result? = none := by
  cases hresult : (b.after m).result? with
  | none => rfl
  | some result =>
      rw [after_of_result hresult h, hresult] at hopen
      cases hopen

theorem result_unique {r r' : Except Error Execution} (hr : (b.after m).result? = some r)
    (hr' : (b.after n).result? = some r') : r = r' := by
  obtain h | h := le_total m n
  · rw [after_of_result hr h, hr] at hr'
    exact Option.some.inj hr'
  · rw [after_of_result hr' h, hr'] at hr
    exact (Option.some.inj hr).symm

/-! ## A result comes -/

theorem phase_after (h : m ≤ n) : (b.after n).phase = (b.after m).phase ∨
    Scene.rank (b.after n).phase < Scene.rank (b.after m).phase := by
  induction n, h using Nat.le_induction with
  | base => exact .inl rfl
  | succ n _ ih =>
      have hstep := (b.after n).phase_handle (b.events n)
      rw [← after_succ] at hstep
      obtain heq | hlt := ih
      · rwa [heq] at hstep
      · obtain hsame | hless := hstep
        · rw [hsame]
          exact .inr hlt
        · exact .inr (hless.trans hlt)

/-- **A supervisor comes to a result whatever the system does.** -/
theorem exists_result (b : Behaviour) : ∃ n result, (b.after n).result? = some result := by
  -- The rank of the phase is the variant: what is awaited lowers it, and nothing raises it again.
  suffices hrank : ∀ k n, Scene.rank (b.after n).phase = k →
      ∃ m result, (b.after m).result? = some result from hrank _ 0 rfl
  intro k
  induction k using Nat.strong_induction_on with
  | _ k ih =>
      intro n hk
      cases hresult : (b.after n).result? with
      | some result => exact ⟨n, result, hresult⟩
      | none =>
          obtain ⟨j, hj, hawaits⟩ := b.timely n hresult
          obtain hsame | hless := phase_after hj
          · have hlt : Scene.rank (b.after (j + 1)).phase < k := by
              rw [after_succ, ← hk, ← hsame]
              refine Supervisor.rank_handle_lt ?_
              rw [hsame]
              exact hawaits
            exact ih _ hlt (j + 1) rfl
          · exact ih _ (hk ▸ hless) j rfl

/-! ## The readers -/

/-- **While there is no result, the readers have what there was to read**, and what they have then is
in the result as well. -/
theorem hears_after (hopen : ∀ m < n, (b.after m).result? = none) (stream : Stream) :
    ((b.after n).reader stream).Hears stream (b.first n) := by
  induction n with
  | zero =>
      show (Supervisor.start.reader stream).Hears stream []
      cases stream <;> exact ⟨rfl, by simp [Supervisor.start, Supervisor.reader]⟩
  | succ n ih =>
      have hn := hopen n (Nat.lt_succ_self n)
      rw [after_succ, first_succ, Supervisor.reader_handle hn]
      exact Supervisor.hears_read (ih fun m hm => hopen m (Nat.lt_succ_of_lt hm)) _

/-! ## The race -/

/-- **The race is won by the event `n`**, the first that can win it. -/
structure WonBy (b : Behaviour) (n : ℕ) : Prop where
  decides : (b.events n).Decides
  first : ∀ m < n, ¬ (b.events m).Decides

theorem phase_eq_racing (h : ∀ m < n, ¬ (b.events m).Decides) : (b.after n).phase = .racing := by
  induction n with
  | zero => rfl
  | succ n ih =>
      rw [after_succ]
      refine Supervisor.phase_handle_of_racing ?_ (h n (Nat.lt_succ_self n))
      exact ih fun m hm => h m (Nat.lt_succ_of_lt hm)

/-- **Every race is won.** -/
theorem exists_wonBy (b : Behaviour) : ∃ n, b.WonBy n := by
  have hexists : ∃ n, (b.events n).Decides := by
    by_contra hnone
    have hracing : (b.after 0).phase = .racing := rfl
    obtain ⟨k, -, hawaits⟩ := b.timely 0 (Supervisor.result?_eq_none_of_phase (.inl hracing))
    refine hnone ⟨k, ?_⟩
    -- Whatever a race awaits can win it.
    change Phase.Awaits .racing (b.events k) at hawaits
    cases hevent : b.events k <;> rw [hevent] at hawaits <;> first | exact trivial | exact hawaits
  classical
  exact ⟨Nat.find hexists, Nat.find_spec hexists, fun m hm => Nat.find_min hexists hm⟩

theorem WonBy.racing (h : b.WonBy n) : (b.after n).phase = .racing := phase_eq_racing h.first

theorem WonBy.lt_of_result (h : b.WonBy n) {result : Except Error Execution}
    (hresult : (b.after m).result? = some result) : n < m := by
  by_contra hle
  have hopen := Supervisor.result?_eq_none_of_phase (.inl h.racing)
  rw [open_of_le hopen (not_lt.mp hle)] at hresult
  cases hresult

theorem WonBy.result_of_lost (h : b.WonBy n) {cause : IoError} (hevent : b.events n = .lost cause) :
    (b.after (n + 1)).result? = some (.error (.lost cause)) := by
  rw [after_succ, hevent]
  exact Supervisor.result?_handle_lost h.racing cause

theorem completion_after {c : Completion} (hc : (b.after m).completion? = some c) (h : m ≤ n) :
    (b.after n).completion? = some c := by
  induction n, h using Nat.le_induction with
  | base => exact hc
  | succ n _ ih =>
      rw [after_succ]
      exact Supervisor.completion?_handle ih _

theorem WonBy.result_of_deadline (h : b.WonBy n) (hevent : b.events n = .deadline)
    {result : Except Error Execution} (hresult : (b.after m).result? = some result) :
    ∃ x, result = .ok x ∧ x.completion = .timedOut := by
  have hdecided : (b.after (n + 1)).completion? = some .timedOut := by
    rw [after_succ, hevent, Supervisor.handle_deadline_of_racing h.racing]
    rfl
  have hlater := completion_after hdecided (h.lt_of_result hresult)
  exact Supervisor.execution_of_completion hlater hresult

/-! ## The streams -/

/-- **What is collected of the two streams** when the process ends with the event `n`: what was read
of them, if both were closed before the second half second was over, and otherwise nothing. -/
inductive Collected (b : Behaviour) (n : ℕ) : Bytes → Bytes → Prop
  | read {m : ℕ} : (∀ stream, .closed stream ∈ b.first m) →
      ((b.first m).drop n).count .grace ≤ 1 →
      Collected b n (heard .stdout (b.first m)) (heard .stderr (b.first m))
  | givenUp : (∀ m, (∀ stream, .closed stream ∈ b.first m) →
      1 < ((b.first m).drop n).count .grace) → Collected b n [] []

theorem heard_first {k : ℕ} {stream : Stream} (hm : .closed stream ∈ b.first m)
    (hk : .closed stream ∈ b.first k) : heard stream (b.first m) = heard stream (b.first k) := by
  obtain h | h := le_total m k
  · obtain ⟨more, hmore⟩ := first_isPrefix (b := b) h
    rw [← hmore, heard_append_of_closed hm]
  · obtain ⟨more, hmore⟩ := first_isPrefix (b := b) h
    rw [← hmore, heard_append_of_closed hk]

theorem Collected.unique {out err out' err' : Bytes} (h : b.Collected n out err)
    (h' : b.Collected n out' err') : out = out' ∧ err = err' := by
  cases h with
  | read hclosed hcount =>
      cases h' with
      | read hclosed' _ =>
          exact ⟨heard_first (hclosed _) (hclosed' _), heard_first (hclosed _) (hclosed' _)⟩
      | givenUp hlate => exact absurd (hlate _ hclosed) (not_lt.mpr hcount)
  | givenUp hlate =>
      cases h' with
      | read hclosed hcount => exact absurd (hlate _ hclosed) (not_lt.mpr hcount)
      | givenUp => exact ⟨rfl, rfl⟩

/-- **How far the streams are**, `m` events after the start and after the process has ended with the event
`n`: they are drained, or they are collected. -/
def Drains (b : Behaviour) (n m : ℕ) (c : Completion) : Prop :=
  (∃ graces ≤ 1, (b.after m).phase = .draining c graces ∧
    ((b.first m).drop n).count .grace = graces ∧ ¬ ∀ stream, .closed stream ∈ b.first m) ∨
  ∃ x, (b.after m).phase = .finished x ∧ x.completion = c ∧ b.Collected n x.stdout x.stderr

theorem drains_of_settle {t : Supervisor} {c : Completion} {graces : ℕ}
    (hphase : t.phase = .draining c graces) (hgraces : graces ≤ 1)
    (hhears : ∀ stream, (t.reader stream).Hears stream (b.first m))
    (hcount : ((b.first m).drop n).count .grace = graces) (hsettle : b.after m = t.settle) :
    b.Drains n m c := by
  have hclosed : t.AtEnd ↔ ∀ stream, .closed stream ∈ b.first m :=
    forall_congr' fun stream => (hhears stream).atEnd
  obtain ⟨hsame, hopen⟩ | ⟨c', graces', hphase', hend, hfinished⟩ := t.settle_cases
  · refine .inl ⟨graces, hgraces, ?_, hcount, mt hclosed.mpr (hopen c graces hphase)⟩
    rw [hsettle, hsame, hphase]
  · rw [hphase] at hphase'
    cases hphase'
    refine .inr ⟨⟨c, t.stdout.bytes, t.stderr.bytes⟩, ?_, rfl, ?_⟩
    · rw [hsettle, hfinished]
    · have hout : t.stdout.bytes = heard .stdout (b.first m) := (hhears .stdout).bytes
      have herr : t.stderr.bytes = heard .stderr (b.first m) := (hhears .stderr).bytes
      show b.Collected n t.stdout.bytes t.stderr.bytes
      rw [hout, herr]
      exact .read (hclosed.mp hend) (hcount.trans_le hgraces)

theorem count_drop_first_succ (h : n ≤ m) : ((b.first (m + 1)).drop n).count .grace =
    ((b.first m).drop n).count .grace + if b.events m = .grace then 1 else 0 := by
  have hle : n ≤ (b.first m).length := by rwa [length_first]
  rw [first_succ, List.drop_append_of_le_length hle, List.count_append, List.count_singleton]
  simp only [beq_iff_eq]

/-- **One event keeps account of the streams.** -/
theorem Drains.step {c : Completion} (h : b.Drains n m c) (hlt : n < m) : b.Drains n (m + 1) c := by
  obtain ⟨graces, hgraces, hphase, hcount, hopen⟩ | ⟨x, hphase, hx, hcollected⟩ := h
  · have hresult : (b.after m).result? = none :=
      Supervisor.result?_eq_none_of_phase (.inr (.inr ⟨c, graces, hphase⟩))
    have hhears : ∀ stream, (((b.after m).read (b.events m)).reader stream).Hears stream
        (b.first (m + 1)) := by
      intro stream
      rw [first_succ]
      refine Supervisor.hears_read (hears_after (fun k hk => ?_) stream) _
      exact open_of_le hresult hk.le
    have hmore := count_drop_first_succ (b := b) hlt.le
    by_cases hgrace : b.events m = .grace
    · rw [if_pos hgrace, hcount] at hmore
      rw [hgrace] at hhears
      cases graces with
      | zero =>
          refine drains_of_settle (t := { b.after m with phase := .draining c 1 }) rfl le_rfl
            (fun stream => ?_) hmore ?_
          · have hsame := hhears stream
            cases stream <;> exact hsame
          · rw [after_succ, hgrace, Supervisor.handle_grace_first hphase]
      | succ graces =>
          -- The second half second is over, and some stream is still open.
          refine .inr ⟨⟨c, [], []⟩, ?_, rfl, .givenUp fun k hclosed => ?_⟩
          · rw [after_succ, hgrace, Supervisor.handle_grace_last hphase]
          · have hlate : m + 1 ≤ k := by
              by_contra hearly
              refine hopen fun stream => ?_
              exact (first_isPrefix (by omega)).subset (hclosed stream)
            have hprefix : (b.first (m + 1)).drop n <+: (b.first k).drop n :=
              (first_isPrefix hlate).drop n
            have hsub := hprefix.sublist.count_le Event.grace
            omega
    · rw [if_neg hgrace, hcount] at hmore
      have hdecide := Supervisor.decide_of_draining (s := (b.after m).read (b.events m))
        (by rwa [Supervisor.phase_read]) hgrace
      refine drains_of_settle (t := (b.after m).read (b.events m)) ?_ hgraces hhears hmore ?_
      · rwa [Supervisor.phase_read]
      · rw [after_succ, Supervisor.handle_of_open hresult, hdecide]
  · refine .inr ⟨x, ?_, hx, hcollected⟩
    have hresult : (b.after m).result? = some (.ok x) := by rw [Supervisor.result?, hphase]
    rw [after_of_result hresult (Nat.le_succ m), hphase]

theorem WonBy.drains (h : b.WonBy n) {ending : Ending} (hevent : b.events n = .ended ending)
    (hlt : n < m) : b.Drains n m ending.completion := by
  induction m, hlt using Nat.le_induction with
  | base =>
      have hopen := Supervisor.result?_eq_none_of_phase (.inl h.racing)
      refine drains_of_settle (t := { b.after n with phase := .draining ending.completion 0 }) rfl
        (Nat.zero_le 1) (fun stream => ?_) ?_ ?_
      · have hhears := Supervisor.hears_read
          (hears_after (fun k hk => open_of_le hopen hk.le) stream) (b.events n)
        rw [← first_succ, hevent] at hhears
        cases stream <;> exact hhears
      · have hnone : (b.first n).drop n = [] := List.drop_eq_nil_of_le (length_first b n).le
        rw [count_drop_first_succ le_rfl, hevent, hnone]
        rfl
      · rw [after_succ, hevent, Supervisor.handle_ended_of_racing h.racing]
  | succ m hlt ih => exact ih.step hlt

theorem WonBy.result_of_ended (h : b.WonBy n) {ending : Ending} (hevent : b.events n = .ended ending)
    {result : Except Error Execution} (hresult : (b.after m).result? = some result) :
    ∃ out err, result = .ok ⟨ending.completion, out, err⟩ ∧ b.Collected n out err := by
  obtain ⟨graces, -, hphase, -⟩ | ⟨⟨c, out, err⟩, hphase, rfl, hcollected⟩ :=
    h.drains hevent (h.lt_of_result hresult)
  · simp [Supervisor.result?, hphase] at hresult
  · simp only [Supervisor.result?, hphase, Option.some.injEq] at hresult
    exact ⟨out, err, hresult.symm, hcollected⟩

end Behaviour

end Conformance
