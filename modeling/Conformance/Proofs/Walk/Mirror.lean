import Conformance.Proofs.Regrouping
import Conformance.Proofs.Walk.Transcript

set_option autoImplicit false

/-! # Two walks side by side

Two runs of the same suites on machines that answer alike do the same, however different what they
remember or write is. What the sessions of the two have in common is a relation `R`, and `Walk.Same R`
says of two walks that they keep it and end alike. It is put together along `>>=` (`Walk.Same.bind`),
and what has to be known of the two sides is collected in `Mirrors`: that their machines answer alike
and that reporting alike keeps `R`.
-/

namespace Conformance

namespace Walk

variable {σ τ α β : Type} {R : Session σ → Session τ → Prop} {P : α → Prop} {Q : β → Prop}

/-- **Two walks that do the same**: from sessions in the relation `R` they end alike, with a value that
is `P` if they come to one, in sessions that are in the relation again. -/
def Same (R : Session σ → Session τ → Prop) (P : α → Prop) (x : Walk σ α) (y : Walk τ α) : Prop :=
  ∀ a b, R a b → (x a).1 = (y b).1 ∧ R (x a).2 (y b).2 ∧ ∀ value, (x a).1 = .ok value → P value

/-! ## The operations of a walk -/

theorem same_pure {value : α} (h : P value) :
    Same R P (pure value : Walk σ α) (pure value : Walk τ α) := by
  intro a b hab
  refine ⟨rfl, hab, ?_⟩
  rintro _ ⟨⟩
  exact h

theorem same_orStop {ε : Type} (reason : ε → Stop) {r : Except ε α}
    (h : ∀ value, r = .ok value → P value) :
    Same R P (orStop reason r : Walk σ α) (orStop reason r : Walk τ α) := by
  cases r with
  | ok value => exact same_pure (h value rfl)
  | error e => exact fun _ _ hab => ⟨rfl, hab, nofun⟩

theorem same_ask {question : σ → α} {question' : τ → α}
    (h : ∀ a b, R a b → question a.state = question' b.state) :
    Same R (fun _ => True) (ask question) (ask question') :=
  fun a b hab => ⟨congrArg Except.ok (h a b hab), hab, fun _ _ => trivial⟩

/-- **One walk after the other.** -/
theorem Same.bind {x : Walk σ α} {y : Walk τ α} {f : α → Walk σ β} {g : α → Walk τ β}
    (hx : Same R P x y) (hf : ∀ value, P value → Same R Q (f value) (g value)) :
    Same R Q (x >>= f) (y >>= g) := by
  intro a b hab
  obtain ⟨hresult, hsessions, hvalue⟩ := hx a b hab
  rcases hrun : x a with ⟨r, a'⟩
  rcases hrun' : y b with ⟨r', b'⟩
  rw [hrun, hrun'] at hresult hsessions
  rw [hrun] at hvalue
  obtain rfl : r = r' := hresult
  cases r with
  | error reason =>
      rw [bind_of_error f hrun, bind_of_error g hrun']
      exact ⟨rfl, hsessions, nofun⟩
  | ok value =>
      rw [bind_of_ok f hrun, bind_of_ok g hrun']
      exact hf value (hvalue value rfl) a' b' hsessions

end Walk

/-! ## Runs that mirror each other -/

open Walk (Same report)

section

variable {σ τ : Type} {R : Session σ → Session τ → Prop} {m : Machine σ} {s : Settings}
  {m' : Machine τ} {s' : Settings}

/-- **What makes two runs do the same.** They look for the same scripts below the same root, their
machines answer alike, and reporting the same things keeps the relation between their sessions. -/
structure Mirrors (R : Session σ → Session τ → Prop) (m : Machine σ) (s : Settings) (m' : Machine τ)
    (s' : Settings) : Prop where
  root : s.root = s'.root
  timeout : s.timeout = s'.timeout
  isScript : ∀ p, s.isScript p = s'.isScript p
  list : ∀ {a b}, R a b → ∀ dir, m.list dir a.state = m'.list dir b.state
  isDirectory : ∀ {a b}, R a b → ∀ p, m.isDirectory p a.state = m'.isDirectory p b.state
  result : ∀ {a b}, R a b → ∀ c, (m.run c a.state).1 = (m'.run c b.state).1
  state : ∀ {a b}, R a b → ∀ c, R ⟨(m.run c a.state).2, a.sink⟩ ⟨(m'.run c b.state).2, b.sink⟩
  started : ∀ c, Same R (fun _ => True) (report ((Reporter.ofSettings s).started c))
    (report ((Reporter.ofSettings s').started c))
  finished : ∀ c v, Same R (fun _ => True) (report ((Reporter.ofSettings s).finished c v))
    (report ((Reporter.ofSettings s').finished c v))
  summary : ∀ t emissions emissions', (Reporter.ofSettings s).summary t = .ok emissions →
    (Reporter.ofSettings s').summary t = .ok emissions' →
    Same R (fun _ => True) (report emissions) (report emissions')

namespace Walk

variable (h : Mirrors R m s m' s')
include h

/-- **A case** is given the same verdict. -/
theorem same_runCase (c : TestCase) :
    Same R (fun _ => True) (runCase m s c) (runCase m' s' c) := by
  have hattempt : Same R (fun _ => True) (attempt m c) (attempt m' c) :=
    fun a b hab => ⟨congrArg Except.ok (h.result hab c), h.state hab c, fun _ _ => trivial⟩
  refine (h.started c).bind fun _ _ => hattempt.bind fun result _ => ?_
  rw [h.timeout]
  refine (same_orStop .failed fun _ _ => trivial).bind fun verdict _ => ?_
  exact (h.finished c verdict).bind fun _ _ => same_pure trivial

theorem same_visitPath {enter : Path → Walk σ Totals} {enter' : Path → Walk τ Totals}
    (henter : ∀ dir, Same R Totals.Sound (enter dir) (enter' dir)) {t : Totals} (ht : t.Sound)
    (p : Path) :
    Same R Totals.Sound (visitPath m s enter t p) (visitPath m' s' enter' t p) := by
  refine (same_ask fun a b hab => h.isDirectory hab p).bind fun directory _ => ?_
  rw [h.isScript]
  split
  · refine (henter p).bind fun inner hinner => same_orStop .overflow fun u hu => ?_
    obtain ⟨u', hu', hcounts⟩ | ⟨-, herror⟩ := ht.counts.add hinner.counts
    · cases hu.symm.trans hu'
      exact hcounts.sound
    · cases hu.symm.trans herror
  split
  · refine (same_runCase h ⟨p⟩).bind fun passed _ => same_orStop .overflow fun u hu => ?_
    obtain ⟨u', hu', hcounts⟩ | ⟨-, herror⟩ := ht.counts.record passed
    · cases hu.symm.trans hu'
      exact hcounts.sound
    · cases hu.symm.trans herror
  · exact same_pure ht

theorem same_visitPaths {enter : Path → Walk σ Totals} {enter' : Path → Walk τ Totals}
    (henter : ∀ dir, Same R Totals.Sound (enter dir) (enter' dir)) (ps : List Path) {t : Totals}
    (ht : t.Sound) :
    Same R Totals.Sound (visitPaths m s enter t ps) (visitPaths m' s' enter' t ps) := by
  induction ps generalizing t with
  | nil => exact same_pure ht
  | cons p ps ih => exact (same_visitPath h henter ht p).bind fun u hu => ih hu

theorem same_visit (depth : ℕ) (dir : Path) :
    Same R Totals.Sound (visit m s depth dir) (visit m' s' depth dir) := by
  induction depth generalizing dir with
  | zero => exact fun _ _ hab => ⟨rfl, hab, nofun⟩
  | succ depth ih =>
      refine (same_ask fun a b hab => h.list hab dir).bind fun listing _ => ?_
      refine (same_orStop _ fun _ _ => trivial).bind fun names _ => ?_
      exact same_visitPaths h ih (entryPaths dir names) (by decide)

/-- **A run of all suites.** Totals that were counted have a summary in either format. -/
theorem same_runSuites (depth : ℕ) :
    Same R Totals.Sound (runSuites m s depth) (runSuites m' s' depth) := by
  have hsummary : ∀ (r : Reporter) {t : Totals}, t.Sound → ∃ emissions,
      r.summary t = .ok emissions := by
    intro r t ht
    cases hformat : r.format with
    | text => exact ⟨_, by rw [Reporter.summary, hformat]⟩
    | json => exact ⟨_, by rw [Reporter.summary, hformat, ht.counts.failed.1]; rfl⟩
  have hvisit := same_visit h depth s.root
  rw [h.root] at hvisit
  unfold runSuites
  rw [h.root]
  refine hvisit.bind fun t ht => ?_
  obtain ⟨emissions, hemissions⟩ := hsummary (Reporter.ofSettings s) ht
  obtain ⟨emissions', hemissions'⟩ := hsummary (Reporter.ofSettings s') ht
  rw [hemissions, hemissions']
  exact (h.summary t emissions emissions' hemissions hemissions').bind fun _ _ => same_pure ht

end Walk

end

/-! ## Machines that remember more -/

section

variable {σ τ : Type} {m' : Machine (σ × τ)} {m : Machine σ}

/-- **A machine that does what another one does**, and remembers something beside its state. -/
structure Machine.Beside (m' : Machine (σ × τ)) (m : Machine σ) : Prop where
  list : ∀ dir a, m'.list dir a = m.list dir a.1
  isDirectory : ∀ p a, m'.isDirectory p a = m.isDirectory p a.1
  result : ∀ c a, (m'.run c a).1 = (m.run c a.1).1
  state : ∀ c a, (m'.run c a).2.1 = (m.run c a.1).2

/-- Its runs mirror those of the other one, and keep what holds of the state and of what is remembered
if running a case does. -/
theorem mirrors_of_beside (h : m'.Beside m) (s : Settings) {I : σ → τ → Prop}
    (hI : ∀ {a}, I a.1 a.2 → ∀ c, I (m'.run c a).2.1 (m'.run c a).2.2) :
    Mirrors (fun a b => a.state.1 = b.state ∧ a.sink = b.sink ∧ I b.state a.state.2) m' s m s := by
  have hreport : ∀ emissions, Same (fun (a : Session (σ × τ)) (b : Session σ) =>
      a.state.1 = b.state ∧ a.sink = b.sink ∧ I b.state a.state.2) (fun _ => True)
      (report emissions) (report emissions) := by
    rintro emissions ⟨a, sink⟩ ⟨b, _⟩ ⟨hstate, rfl, hI⟩
    exact ⟨rfl, ⟨hstate, rfl, hI⟩, fun _ _ => trivial⟩
  refine ⟨rfl, rfl, fun _ => rfl, ?_, ?_, ?_, ?_, fun _ => hreport _, fun _ _ => hreport _, ?_⟩
  · rintro a b ⟨hstate, -⟩ dir
    rw [h.list, hstate]
  · rintro a b ⟨hstate, -⟩ p
    rw [h.isDirectory, hstate]
  · rintro a b ⟨hstate, -⟩ c
    rw [h.result, hstate]
  · rintro a b ⟨hstate, hsink, ha⟩ c
    rw [← hstate] at ha ⊢
    exact ⟨h.state c a.state, hsink, h.state c a.state ▸ hI ha c⟩
  · intro t emissions emissions' hemissions hemissions'
    cases hemissions.symm.trans hemissions'
    exact hreport emissions

end

end Conformance
