import Conformance.Proofs.Walk.Encounters

set_option autoImplicit false

/-! # What a walk stops for

`Walk.StopsBy P x` says that, whatever the session, the walk `x` stops for reasons of the kind `P` only.
A report can always be refused and totals can always become too great; a kind that has these reasons is
`Walk.Routine`. What else a walk may stop for is up to its cases and to the directories it enters
(`Walk.stopsBy_visitPaths`).
-/

namespace Conformance

theorem exists_error_of_mapError {ε δ α : Type} {r : Except ε α} {f : ε → δ} {d : δ}
    (h : r.mapError f = .error d) : ∃ e, r = .error e ∧ f e = d := by
  cases r with
  | ok a => cases h
  | error e => exact ⟨e, rfl, Except.error.inj h⟩

namespace Sink

variable {sink : Sink} {e : Error}

/-- A single emission fails only by what cannot be written. -/
theorem error_of_perform {emission : Emission} (h : (sink.perform emission).1 = .error e) :
    ∃ cause, e = .io cause ∨ e = .json cause := by
  cases emission with
  | flush =>
      rw [perform] at h
      split at h
      · exact ⟨flushFailed, .inl (Except.error.inj h).symm⟩
      · cases h
  | write part text =>
      obtain ⟨cause, -, rfl⟩ := exists_error_of_mapError h
      cases part with
      | record => exact ⟨cause, .inr rfl⟩
      | plain => exact ⟨cause, .inl rfl⟩

/-- **A report fails only by what cannot be written.** -/
theorem error_of_performAll {emissions : List Emission}
    (h : (sink.performAll emissions).1 = .error e) : ∃ cause, e = .io cause ∨ e = .json cause := by
  induction emissions generalizing sink with
  | nil => cases h
  | cons emission rest ih =>
      rw [performAll] at h
      rcases hperform : sink.perform emission with ⟨error | u, sink'⟩
      · rw [hperform] at h
        cases h
        exact error_of_perform (congrArg Prod.fst hperform)
      · rw [hperform] at h
        exact ih h

end Sink

namespace Walk

variable {σ α β : Type} {m : Machine σ} {s : Settings} {P : Stop → Prop}

/-- **A walk that stops for reasons of one kind only.** -/
def StopsBy (P : Stop → Prop) (x : Walk σ α) : Prop :=
  ∀ session reason, (x session).1 = .error reason → P reason

/-- A kind of reasons that has those for which the report of any walk may stop it. -/
structure Routine (P : Stop → Prop) : Prop where
  overflow : ∀ o, P (.overflow o)
  io : ∀ cause, P (.failed (.io cause))
  json : ∀ cause, P (.failed (.json cause))

/-! ## The parts of a walk -/

/-- What follows has to stop for these reasons after the values that the first walk can come to. -/
theorem StopsBy.bind {x : Walk σ α} {f : α → Walk σ β} (hx : StopsBy P x)
    (hf : ∀ session a, (x session).1 = .ok a → StopsBy P (f a)) : StopsBy P (x >>= f) := by
  intro session reason h
  have hfirst := hx session
  have hsecond := hf session
  rcases hrun : x session with ⟨stopped | a, session'⟩
  · rw [hrun] at hfirst
    rw [bind_of_error f hrun] at h
    cases h
    exact hfirst _ rfl
  · rw [hrun] at hsecond
    rw [bind_of_ok f hrun] at h
    exact hsecond a rfl session' reason h

theorem stopsBy_pure (a : α) : StopsBy P (pure a : Walk σ α) := by
  intro session reason h
  cases h

theorem stopsBy_stop {reason : Stop} (h : P reason) : StopsBy P (stop reason : Walk σ α) := by
  intro session reason' heq
  cases heq
  exact h

theorem stopsBy_orStop {ε : Type} {reason : ε → Stop} {r : Except ε α}
    (h : ∀ e, r = .error e → P (reason e)) : StopsBy P (orStop reason r : Walk σ α) := by
  cases r with
  | ok a => exact stopsBy_pure a
  | error e => exact stopsBy_stop (h e rfl)

theorem stopsBy_overflow (hP : Routine P) (r : Except Overflow α) :
    StopsBy P (orStop .overflow r : Walk σ α) :=
  stopsBy_orStop fun o _ => hP.overflow o

theorem stopsBy_report (hP : Routine P) (emissions : List Emission) :
    StopsBy P (report emissions : Walk σ Unit) := by
  intro session reason h
  obtain ⟨e, he, rfl⟩ := exists_error_of_mapError h
  obtain ⟨cause, rfl | rfl⟩ := Sink.error_of_performAll he
  · exact hP.io cause
  · exact hP.json cause

/-! ## Cases and directories -/

/-- **A case** stops a walk by its report or by a result that is no verdict. -/
theorem stopsBy_runCase (hP : Routine P) {c : TestCase}
    (hcase : ∀ state e, classifyRun (m.run c state).1 s.timeout = .error e → P (.failed e)) :
    StopsBy P (runCase m s c) := by
  have hattempt : StopsBy P (attempt m c) := by
    intro session reason h
    cases h
  refine (stopsBy_report hP _).bind fun _ _ _ => hattempt.bind fun session result hresult => ?_
  have hverdict : StopsBy P (orStop .failed (classifyRun result s.timeout) : Walk σ Verdict) := by
    cases hresult
    exact stopsBy_orStop (hcase session.state)
  refine hverdict.bind fun _ verdict _ => ?_
  exact (stopsBy_report hP _).bind fun _ _ _ => stopsBy_pure _

section

variable (hP : Routine P)
  (hcase : ∀ c state e, classifyRun (m.run c state).1 s.timeout = .error e → P (.failed e))
  {enter : Path → Walk σ Totals}
include hP hcase

theorem stopsBy_visitPath {p : Path}
    (henter : ∀ state, m.isDirectory p state = true → StopsBy P (enter p)) (t : Totals) :
    StopsBy P (visitPath m s enter t p) := by
  intro session
  rw [visitPath_apply]
  split
  · next hd =>
      exact (henter _ hd).bind (fun _ _ _ => stopsBy_overflow hP _) session
  · split
    · exact (stopsBy_runCase hP (hcase ⟨p⟩)).bind (fun _ _ _ => stopsBy_overflow hP _) session
    · exact stopsBy_pure t session

theorem stopsBy_visitPaths {ps : List Path}
    (henter : ∀ p ∈ ps, ∀ state, m.isDirectory p state = true → StopsBy P (enter p)) (t : Totals) :
    StopsBy P (visitPaths m s enter t ps) := by
  induction ps generalizing t with
  | nil => exact stopsBy_pure t
  | cons p ps ih =>
      obtain ⟨hp, hps⟩ := List.forall_mem_cons.mp henter
      exact (stopsBy_visitPath hP hcase hp t).bind fun _ t' _ => ih hps t'

end

theorem stopsBy_runSuites (hP : Routine P) {depth : ℕ} (h : StopsBy P (visit m s depth s.root)) :
    StopsBy P (runSuites m s depth) := by
  refine h.bind fun _ t _ => ?_
  refine (stopsBy_overflow hP _).bind fun _ emissions _ => ?_
  exact (stopsBy_report hP emissions).bind fun _ _ _ => stopsBy_pure t

end Walk

end Conformance
