import Mathlib
import Conformance.Proofs.Supervisor.Scene

set_option autoImplicit false

/-! # What a supervisor warns of

Logging has no part in the supervision, but something can be told from what was logged. Nothing is
logged about a process that is not lost and whose streams can be read and are closed in time
(`Supervisor.warnings_eq_nil`). And output is given up only with a warning
(`Supervisor.finished_cases`): without one, a result has everything that was read.
-/

namespace Conformance

/-- What a supervisor may be told without a word in the log. -/
def Event.Unremarkable : Event → Prop
  | .lost _ | .unread _ _ | .grace => False
  | _ => True

namespace Supervisor

variable {s : Supervisor} {e : Event} {x : Execution}

theorem warnings_append (s : Supervisor) (es fs : List Event) :
    s.warnings (es ++ fs) = s.warnings es ++ (s.afterAll es).1.warnings fs := by
  induction es generalizing s with
  | nil => rfl
  | cons e rest ih => simp only [List.cons_append, warnings, afterAll, ih, List.append_assoc]

theorem afterAll_of_result {result : Except Error Execution} (h : s.result? = some result)
    (events : List Event) : (s.afterAll events).1 = s := by
  induction events with
  | nil => rfl
  | cons e rest ih => simp only [afterAll, handle_of_result h, ih]

/-- **What is warned of** is a lost process, a half second that has passed, or a failed read. -/
theorem warn_cases {warning : Warning} (h : warning ∈ s.warn e) :
    (∃ cause, e = .lost cause ∧ (warning = .lostTrack cause ∨ warning = .notKilled cause)) ∨
      e = .grace ∧ (warning = .stillOpen ∨ warning = .givenUp) ∨
      ∃ stream cause, e = .unread stream cause ∧ warning = .unread cause := by
  -- One case for each line of the definition.
  unfold warn at h
  split at h
  case h_1 => exact Or.inl ⟨_, rfl, Or.inl (List.mem_singleton.mp h)⟩
  case h_2 | h_3 => exact Or.inl ⟨_, rfl, Or.inr (List.mem_singleton.mp h)⟩
  case h_4 => exact Or.inr (Or.inl ⟨rfl, Or.inl (List.mem_singleton.mp h)⟩)
  case h_5 => exact Or.inr (Or.inl ⟨rfl, Or.inr (List.mem_singleton.mp h)⟩)
  case h_7 =>
    split at h
    · cases h
    · exact Or.inr (Or.inr ⟨_, _, rfl, List.mem_singleton.mp h⟩)
  case h_6 | h_8 => cases h

theorem warn_of_unremarkable (h : e.Unremarkable) (s : Supervisor) : s.warn e = [] := by
  rw [List.eq_nil_iff_forall_not_mem]
  intro warning hwarning
  obtain ⟨cause, rfl, -⟩ | ⟨rfl, -⟩ | ⟨stream, cause, rfl, -⟩ := warn_cases hwarning <;> exact h

/-- **Nothing is logged if nothing goes amiss.** -/
theorem warnings_eq_nil {events : List Event} (h : ∀ e ∈ events, e.Unremarkable)
    (s : Supervisor) : s.warnings events = [] := by
  induction events generalizing s with
  | nil => rfl
  | cons e rest ih =>
      obtain ⟨he, hrest⟩ := List.forall_mem_cons.mp h
      rw [warnings, warn_of_unremarkable he, ih hrest, List.append_nil]

theorem finished_of_decide (hopen : s.result? = none) (h : (s.decide e).1.phase = .finished x) :
    ∃ c graces, s.phase = .draining c (graces + 1) ∧ e = .grace ∧ x = ⟨c, [], []⟩ := by
  cases hphase : s.phase with
  | draining c graces =>
      cases e with
      | grace =>
          cases graces with
          | zero => simp [decide, hphase] at h
          | succ graces =>
              have hx : (⟨c, [], []⟩ : Execution) = x := by simpa [decide, hphase] using h
              exact ⟨c, graces, rfl, rfl, hx.symm⟩
      | _ => simp [decide, hphase] at h
  | finished => simp [result?, hphase] at hopen
  | _ => cases e <;> simp [decide, hphase] at h

/-- **What makes a result**: both streams are at their end and it has what was read of them, or it
has nothing of them and there is a warning. -/
theorem finished_of_handle (hopen : s.result? = none) (h : (s.handle e).1.phase = .finished x) :
    (s.handle e).1.AtEnd ∧ x.stdout = (s.handle e).1.stdout.bytes ∧
        x.stderr = (s.handle e).1.stderr.bytes ∨
      s.warn e = [.givenUp] ∧ x.stdout = [] ∧ x.stderr = [] := by
  rw [handle_of_open hopen] at h ⊢
  obtain ⟨hsame, -⟩ | ⟨c, graces, -, hend, hsettle⟩ := ((s.read e).decide e).1.settle_cases
  · right
    have hread : (s.read e).result? = none := by rwa [result?, phase_read]
    rw [hsame] at h
    obtain ⟨c, graces, hphase, rfl, rfl⟩ := finished_of_decide hread h
    rw [phase_read] at hphase
    exact ⟨by simp only [warn, hphase], rfl, rfl⟩
  · left
    rw [hsettle] at h ⊢
    cases h
    exact ⟨hend, rfl, rfl⟩

/-- **Output is given up only with a warning.** A result that a supervision has come to has what was
read of two streams that are at their ends, unless the log says that the output was given up. -/
theorem finished_cases (hopen : s.result? = none) {events : List Event}
    (h : (s.afterAll events).1.phase = .finished x) :
    (s.afterAll events).1.AtEnd ∧ x.stdout = (s.afterAll events).1.stdout.bytes ∧
        x.stderr = (s.afterAll events).1.stderr.bytes ∨
      .givenUp ∈ s.warnings events ∧ x.stdout = [] ∧ x.stderr = [] := by
  induction events generalizing s with
  | nil =>
      have hphase : s.phase = .finished x := h
      simp [result?, hphase] at hopen
  | cons e rest ih =>
      cases hresult : (s.handle e).1.result? with
      | none =>
          obtain hread | ⟨hwarned, hempty⟩ := ih hresult h
          · exact Or.inl hread
          · exact Or.inr ⟨List.mem_append_right _ hwarned, hempty⟩
      | some result =>
          -- The supervision ends here, and the rest of the events is not heard.
          have hrest := afterAll_of_result hresult rest
          have hfirst : (s.afterAll (e :: rest)).1 = (s.handle e).1 := hrest
          rw [hfirst] at h ⊢
          obtain hread | ⟨hwarned, hempty⟩ := finished_of_handle hopen h
          · exact Or.inl hread
          · refine Or.inr ⟨List.mem_append_left _ ?_, hempty⟩
            rw [hwarned]
            exact List.mem_singleton_self _

end Supervisor

end Conformance
