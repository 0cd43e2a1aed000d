import Mathlib
import Conformance.Walk

set_option autoImplicit false

/-! # Transcripts of a walk

What can be seen of a walk is what it writes and which cases it runs, in their order: a list of
`Act`s. On a view, where nothing that is asked of the files depends on what has happened, the acts
of a walk and its result do not depend on the session it starts in: the walk *plays* a transcript.
The sink alone decides how much of the transcript is carried out, `perform`.

A walk is built from few operations, and each of them plays a transcript of its own. Transcripts
are put together along `>>=` (`Plays.bind`), so that the modules above never open a session again.
-/

namespace Conformance

def Emission.bytes : Emission → Bytes
  | .write _ text => Utf8.encode text
  | .flush => []

def Emission.written (emissions : List Emission) : Bytes := emissions.flatMap bytes

theorem Emission.written_append_flush (emissions : List Emission) :
    written (emissions ++ [.flush]) = written emissions := by
  simp [written, bytes]

/-- One thing that can be seen of a walk. -/
inductive Act where
  | emit (e : Emission)
  | run (c : TestCase)
  deriving DecidableEq, Repr

namespace Act

/-- The bytes that an act comes to on a sink that refuses nothing. -/
def bytes : Act → Bytes
  | .emit e => e.bytes
  | .run _ => []

def case? : Act → Option TestCase
  | .emit _ => none
  | .run c => some c

def written (acts : List Act) : Bytes := acts.flatMap bytes

def cases (acts : List Act) : List TestCase := acts.filterMap case?

@[simp] theorem written_nil : written [] = [] := rfl

@[simp] theorem written_emit (e : Emission) (acts : List Act) :
    written (.emit e :: acts) = e.bytes ++ written acts := rfl

@[simp] theorem written_append (as bs : List Act) :
    written (as ++ bs) = written as ++ written bs := by
  simp [written]

@[simp] theorem written_run (c : TestCase) (acts : List Act) :
    written (.run c :: acts) = written acts := rfl

@[simp] theorem written_map_emit (emissions : List Emission) :
    written (emissions.map .emit) = Emission.written emissions := by
  simp only [written, Emission.written, List.flatMap_map]
  rfl

@[simp] theorem cases_nil : cases [] = [] := rfl

@[simp] theorem cases_emit (e : Emission) (acts : List Act) :
    cases (.emit e :: acts) = cases acts := rfl

@[simp] theorem cases_run (c : TestCase) (acts : List Act) :
    cases (.run c :: acts) = c :: cases acts := rfl

@[simp] theorem cases_append (as bs : List Act) : cases (as ++ bs) = cases as ++ cases bs := by
  simp [cases]

@[simp] theorem cases_map_emit (emissions : List Emission) : cases (emissions.map .emit) = [] := by
  induction emissions with
  | nil => rfl
  | cons e rest ih => rw [List.map_cons, cases_emit, ih]

end Act

namespace Walk

/-! ## Carrying out a transcript -/

/-- Carries out acts up to the first that the sink refuses. A case that is run is remembered. -/
def perform : List Act → Session (List TestCase) → Except Error Unit × Session (List TestCase)
  | [], session => (.ok (), session)
  | .emit e :: rest, session =>
    match session.sink.perform e with
    | (.ok _, sink) => perform rest { session with sink := sink }
    | (.error error, sink) => (.error error, { session with sink := sink })
  | .run c :: rest, session => perform rest { session with state := session.state ++ [c] }

/-- The end of a walk with result `r` whose acts have been carried out, or refused. -/
def conclude {α : Type} (r : Except Stop α) :
    Except Error Unit × Session (List TestCase) → Except Stop α × Session (List TestCase)
  | (.ok _, session) => (r, session)
  | (.error error, session) => (.error (.failed error), session)

@[simp] theorem conclude_snd {α : Type} (r : Except Stop α)
    (p : Except Error Unit × Session (List TestCase)) : (conclude r p).2 = p.2 := by
  rcases p with ⟨_ | _, session⟩ <;> rfl

/-- A walk that ends without a stop has not been refused anything. -/
theorem of_conclude_ok {α : Type} {r : Except Stop α} {a : α}
    {p : Except Error Unit × Session (List TestCase)} {session : Session (List TestCase)}
    (h : conclude r p = (.ok a, session)) : r = .ok a ∧ p = (.ok (), session) := by
  obtain ⟨_ | _, session'⟩ := p
  · cases h
  · cases h
    exact ⟨rfl, rfl⟩

theorem perform_append (as bs : List Act) (session : Session (List TestCase)) :
    perform (as ++ bs) session =
      match perform as session with
      | (.ok _, session') => perform bs session'
      | (.error error, session') => (.error error, session') := by
  induction as generalizing session with
  | nil => rfl
  | cons a as ih =>
      cases a with
      | emit e =>
          simp only [List.cons_append, perform]
          rcases session.sink.perform e with ⟨_ | _, sink⟩
          · rfl
          · exact ih _
      | run c => exact ih _

theorem perform_emissions (emissions : List Emission) (session : Session (List TestCase)) :
    perform (emissions.map .emit) session =
      ((session.sink.performAll emissions).1,
        { session with sink := (session.sink.performAll emissions).2 }) := by
  induction emissions generalizing session with
  | nil => rfl
  | cons e rest ih =>
      simp only [List.map_cons, perform, Sink.performAll]
      rcases session.sink.perform e with ⟨_ | _, sink⟩
      · rfl
      · exact ih _

/-- **The cases that are run are the first ones of the transcript**, and all of them if the sink
refuses nothing. -/
theorem exists_state_perform (acts : List Act) (session : Session (List TestCase)) :
    ∃ executed, executed <+: Act.cases acts ∧
      (perform acts session).2.state = session.state ++ executed ∧
      ((perform acts session).1 = .ok () → executed = Act.cases acts) := by
  induction acts generalizing session with
  | nil => exact ⟨[], List.prefix_refl _, (List.append_nil _).symm, fun _ => rfl⟩
  | cons a acts ih =>
      cases a with
      | run c =>
          obtain ⟨executed, hprefix, hstate, hall⟩ :=
            ih { session with state := session.state ++ [c] }
          refine ⟨c :: executed, (List.prefix_cons_inj c).mpr hprefix, ?_, fun h => ?_⟩
          · rw [perform, hstate, List.append_assoc, List.singleton_append]
          · rw [hall h, Act.cases_run]
      | emit e =>
          simp only [perform, Act.cases_emit]
          rcases session.sink.perform e with ⟨_ | _, sink⟩
          · refine ⟨[], List.nil_prefix, (List.append_nil _).symm, fun h => ?_⟩
            cases h
          · exact ih _

/-- **A sink with room for a transcript takes all of it**, and every case is run. -/
theorem perform_of_room (acts : List Act) (capacity : Option Nat) (ran : List TestCase)
    (held : Bytes) (hroom : ∀ n ∈ capacity, held.length + (Act.written acts).length ≤ n) :
    perform acts ⟨ran, ⟨capacity, false, held⟩⟩ =
      (.ok (), ⟨ran ++ Act.cases acts, ⟨capacity, false, held ++ Act.written acts⟩⟩) := by
  induction acts generalizing ran held with
  | nil => simp [perform]
  | cons a acts ih =>
      cases a with
      | run c =>
          rw [perform, ih _ _ hroom, Act.cases_run, Act.written_run, List.append_assoc]
          rfl
      | emit e =>
          simp only [Act.written_emit, List.length_append] at hroom
          have hperform : Sink.perform ⟨capacity, false, held⟩ e =
              (.ok (), ⟨capacity, false, held ++ e.bytes⟩) := by
            cases e with
            | flush => simp [Sink.perform, Emission.bytes]
            | write part text =>
                -- There is room for this text, since there is room for it and all that follows.
                have hfitting : Sink.fitting ⟨capacity, false, held⟩ (Utf8.encode text) =
                    Utf8.encode text := by
                  cases capacity with
                  | none => rfl
                  | some n =>
                      have hle : (Utf8.encode text).length ≤ n - held.length := by
                        have := hroom n rfl
                        rw [Emission.bytes] at this
                        omega
                      exact List.take_of_length_le hle
                simp [Sink.perform, Sink.push, hfitting, Emission.bytes, Except.mapError]
          rw [perform, hperform, Act.cases_emit, Act.written_emit]
          simp only
          rw [ih, List.append_assoc]
          intro n hn
          have := hroom n hn
          simp only [List.length_append]
          omega

/-! ## Walks as functions of a session -/

theorem bind_of_ok {σ α β : Type} {x : Walk σ α} (f : α → Walk σ β) {session session' : Session σ}
    {a : α} (h : x session = (.ok a, session')) : (x >>= f) session = f a session' := by
  simp only [Bind.bind, h]

theorem bind_of_error {σ α β : Type} {x : Walk σ α} (f : α → Walk σ β)
    {session session' : Session σ} {reason : Stop} (h : x session = (.error reason, session')) :
    (x >>= f) session = (.error reason, session') := by
  simp only [Bind.bind, h]

/-- What is done in a directory depends on its listing. -/
theorem visit_succ {σ : Type} {m : Machine σ} {s : Settings} (depth : Nat) (dir : Path)
    (session : Session σ) :
    visit m s (depth + 1) dir session =
      match m.list dir session.state with
      | .ok names => visitPaths m s (visit m s depth) Totals.zero (entryPaths dir names) session
      | .error cause => (.error (.failed (.discovery dir cause)), session) := by
  rw [visit]
  simp only [Bind.bind, ask]
  cases m.list dir session.state <;> rfl

/-! ## Playing a transcript -/

/-- **The walk `x` plays the transcript `acts` and ends with `r`**, whatever session it starts in,
unless the sink refuses one of the acts. -/
def Plays {α : Type} (x : Walk (List TestCase) α) (acts : List Act) (r : Except Stop α) : Prop :=
  ∀ session, x session = conclude r (perform acts session)

namespace Plays

variable {α β : Type}

theorem pure (a : α) : Plays (Pure.pure a) [] (.ok a) := fun _ => rfl

theorem stop (reason : Stop) :
    Plays (Walk.stop reason : Walk (List TestCase) α) [] (.error reason) := fun _ => rfl

theorem orStop {ε : Type} (reason : ε → Stop) (r : Except ε α) :
    Plays (Walk.orStop reason r) [] (r.mapError reason) := by
  cases r with
  | ok a => exact pure a
  | error e => exact stop (reason e)

/-- A question whose answer is the same in every state leaves no trace. -/
theorem ask (a : α) : Plays (Walk.ask fun _ => a) [] (.ok a) := fun _ => rfl

theorem attempt (v : View) (results : TestCase → Except Error Execution) (c : TestCase) :
    Plays (Walk.attempt (v.machine results) c) [.run c] (.ok (results c)) := fun _ => rfl

theorem report (emissions : List Emission) :
    Plays (Walk.report emissions) (emissions.map .emit) (.ok ()) := by
  intro session
  rw [perform_emissions]
  simp only [Walk.report]
  rcases session.sink.performAll emissions with ⟨_ | _, sink⟩ <;> rfl

theorem of_eq {x : Walk (List TestCase) α} {as bs : List Act} {r : Except Stop α}
    (h : Plays x as r) (hacts : as = bs) : Plays x bs r := hacts ▸ h

/-- **Transcripts are put together along `>>=`.** -/
theorem bind {x : Walk (List TestCase) α} {f : α → Walk (List TestCase) β} {as bs : List Act}
    {a : α} {r : Except Stop β} (hx : Plays x as (.ok a)) (hf : Plays (f a) bs r) :
    Plays (x >>= f) (as ++ bs) r := by
  intro session
  have h := hx session
  rw [perform_append]
  rcases hp : perform as session with ⟨_ | _, session'⟩
  · rw [hp] at h
    exact bind_of_error f h
  · rw [hp] at h
    rw [bind_of_ok f h]
    exact hf session'

theorem bind_error {x : Walk (List TestCase) α} (f : α → Walk (List TestCase) β) {as : List Act}
    {reason : Stop} (hx : Plays x as (.error reason)) : Plays (x >>= f) as (.error reason) := by
  intro session
  have h := hx session
  rcases hp : perform as session with ⟨_ | _, session'⟩
  · rw [hp] at h
    exact bind_of_error f h
  · rw [hp] at h
    exact bind_of_error f h

end Plays

end Walk

end Conformance
