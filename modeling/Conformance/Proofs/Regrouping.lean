import Mathlib
import Conformance.Proofs.Totals

set_option autoImplicit false

/-! # Counting in many steps

Totals are counted up step by step: one more case, or the cases of other totals. `Totals.countAll`
makes the steps of a list one after the other, and the first sum that does not fit a word ends it. A
`Totals.Plan` may count some of the steps into totals of their own and add these later, in groups
within groups, as a walk does with the directories below a directory.

Whatever the plan, the counters hold the exact sums or the number of cases has become too large
(`Totals.Counts.plan`): the passed cases of a step are not more than its cases, so their counter is
never the first to overflow. Hence the groups and the order of the steps make no difference
(`Totals.counts_exactly`).
-/

namespace Conformance

namespace Totals

def Sound (t : Totals) : Prop := t.passed ≤ t.total

instance (t : Totals) : Decidable t.Sound := inferInstanceAs (Decidable (t.passed ≤ t.total))

def failures (t : Totals) : ℕ := t.total.toNat - t.passed.toNat

/-- One step of counting. -/
inductive Step where
  /-- One case is counted. -/
  | record (passed : Bool)
  | add (other : Totals)

/-- What a step counts. -/
def Step.amount : Step → Totals
  | .record passed => ⟨1, if passed then 1 else 0⟩
  | .add other => other

def step (t : Totals) : Step → Except Overflow Totals
  | .record passed => t.record passed
  | .add other => t.add other

def countAll (t : Totals) (steps : List Step) : Except Overflow Totals := steps.foldlM step t

/-! ## The exact sums -/

def cases (steps : List Step) : ℕ := (steps.map fun s => s.amount.total.toNat).sum

def passes (steps : List Step) : ℕ := (steps.map fun s => s.amount.passed.toNat).sum

def failuresOf (steps : List Step) : ℕ := (steps.map fun s => s.amount.failures).sum

@[simp] theorem cases_nil : cases [] = 0 := rfl

@[simp] theorem cases_cons (s : Step) (steps : List Step) :
    cases (s :: steps) = s.amount.total.toNat + cases steps := by
  simp [cases]

@[simp] theorem passes_cons (s : Step) (steps : List Step) :
    passes (s :: steps) = s.amount.passed.toNat + passes steps := by
  simp [passes]

@[simp] theorem cases_append (steps more : List Step) :
    cases (steps ++ more) = cases steps + cases more := by
  simp [cases]

@[simp] theorem passes_append (steps more : List Step) :
    passes (steps ++ more) = passes steps + passes more := by
  simp [passes]

theorem cases_eq_of_perm {steps steps' : List Step} (h : steps.Perm steps') :
    cases steps = cases steps' := (h.map _).sum_eq

theorem passes_eq_of_perm {steps steps' : List Step} (h : steps.Perm steps') :
    passes steps = passes steps' := (h.map _).sum_eq

theorem Sound.failures_add {t : Totals} (h : t.Sound) :
    t.failures + t.passed.toNat = t.total.toNat := by
  have hle : t.passed.toNat ≤ t.total.toNat := UInt64.le_iff_toNat_le.mp h
  unfold failures
  omega

/-- Every case has passed or failed. -/
theorem failuresOf_add {steps : List Step} (h : ∀ s ∈ steps, s.amount.Sound) :
    failuresOf steps + passes steps = cases steps := by
  induction steps with
  | nil => rfl
  | cons s steps ih =>
      obtain ⟨hs, hsteps⟩ := List.forall_mem_cons.mp h
      have hfirst := hs.failures_add
      have hrest := ih hsteps
      have hsum : failuresOf (s :: steps) = s.amount.failures + failuresOf steps := by
        simp [failuresOf]
      rw [hsum, passes_cons, cases_cons]
      omega

/-! ## Plans -/

/-- **A plan of counting**: steps, and groups that are counted by themselves before they are added. -/
inductive Plan where
  | done
  | step (s : Step) (rest : Plan)
  | group (inner rest : Plan)

/-- Counts as planned. A group starts from nothing. -/
def Plan.count : Plan → Totals → Except Overflow Totals
  | .done, t => .ok t
  | .step s rest, t => do rest.count (← t.step s)
  | .group inner rest, t => do
    let counted ← inner.count zero
    rest.count (← t.add counted)

def Plan.steps : Plan → List Step
  | .done => []
  | .step s rest => s :: rest.steps
  | .group inner rest => inner.steps ++ rest.steps

def Plan.ofList : List Step → Plan
  | [] => .done
  | s :: rest => .step s (ofList rest)

@[simp] theorem Plan.steps_ofList (steps : List Step) : (ofList steps).steps = steps := by
  induction steps with
  | nil => rfl
  | cons s steps ih => rw [ofList, Plan.steps, ih]

theorem Plan.count_ofList (steps : List Step) (t : Totals) :
    (ofList steps).count t = t.countAll steps := by
  induction steps generalizing t with
  | nil => rfl
  | cons s steps ih =>
      rw [ofList, count, countAll, List.foldlM_cons]
      exact bind_congr fun u => ih u

/-! ## Counting is exact -/

theorem Sound.counts {t : Totals} (h : t.Sound) : t.Counts t.total.toNat t.passed.toNat :=
  ⟨rfl, rfl, UInt64.le_iff_toNat_le.mp h⟩

namespace Counts

variable {t u : Totals} {n k : ℕ}

theorem sound (h : t.Counts n k) : t.Sound := by
  rw [Sound, UInt64.le_iff_toNat_le, h.total, h.passed]
  exact h.passed_le_total

/-- **One step is exact**, or refused because there are too many cases. -/
theorem step (h : t.Counts n k) {s : Step} (hs : s.amount.Sound) :
    (∃ u, t.step s = .ok u ∧ u.Counts (n + s.amount.total.toNat) (k + s.amount.passed.toNat)) ∨
      UInt64.size ≤ n + s.amount.total.toNat ∧ t.step s = .error .add := by
  cases s with
  | record passed =>
      have hpassed : (Step.record passed).amount.passed.toNat = passed.toNat := by
        cases passed <;> rfl
      rw [hpassed]
      exact h.record passed
  | add other => exact h.add hs.counts

/-- **A plan is exact**, or refused because there are too many cases. -/
theorem plan (h : t.Counts n k) {p : Plan} (hplan : ∀ s ∈ p.steps, s.amount.Sound) :
    (∃ u, p.count t = .ok u ∧ u.Counts (n + cases p.steps) (k + passes p.steps)) ∨
      UInt64.size ≤ n + cases p.steps ∧ p.count t = .error .add := by
  induction p generalizing t n k with
  | done => exact Or.inl ⟨t, rfl, h⟩
  | step s rest ih =>
      obtain ⟨hs, hrest⟩ := List.forall_mem_cons.mp hplan
      simp only [Plan.steps, cases_cons, passes_cons, ← Nat.add_assoc]
      obtain ⟨u, hu, hcounts⟩ | ⟨hmany, hu⟩ := h.step hs
      · have hcount : (Plan.step s rest).count t = rest.count u := by
          rw [Plan.count, hu]
          rfl
        rw [hcount]
        exact ih hcounts hrest
      · refine Or.inr ⟨Nat.le_add_right_of_le hmany, ?_⟩
        rw [Plan.count, hu]
        rfl
  | group inner rest ihinner ihrest =>
      obtain ⟨hinner, hrest⟩ := List.forall_mem_append.mp hplan
      simp only [Plan.steps, cases_append, passes_append, ← Nat.add_assoc]
      -- the group is counted from nothing, and is too large only if all is
      obtain ⟨v, hv, hinside⟩ | ⟨hmany, hv⟩ := ihinner counts_zero hinner
      · rw [Nat.zero_add, Nat.zero_add] at hinside
        obtain ⟨u, hu, hcounts⟩ | ⟨hmany, hu⟩ := h.add hinside
        · have hcount : (Plan.group inner rest).count t = rest.count u := by
            simp only [Plan.count, hv, bind, Except.bind, hu]
          rw [hcount]
          exact ihrest hcounts hrest
        · refine Or.inr ⟨Nat.le_add_right_of_le hmany, ?_⟩
          simp only [Plan.count, hv, bind, Except.bind, hu]
      · refine Or.inr ⟨by omega, ?_⟩
        simp only [Plan.count, hv, bind, Except.bind]

/-- **A list of steps is exact**, or refused because there are too many cases. -/
theorem countAll (h : t.Counts n k) {steps : List Step} (hsteps : ∀ s ∈ steps, s.amount.Sound) :
    (∃ u, t.countAll steps = .ok u ∧ u.Counts (n + cases steps) (k + passes steps)) ∨
      UInt64.size ≤ n + cases steps ∧ t.countAll steps = .error .add := by
  have hplan := h.plan (p := .ofList steps) (by simpa using hsteps)
  rwa [Plan.count_ofList, Plan.steps_ofList] at hplan

/-- A step is refused if and only if there are too many cases after it. -/
theorem step_error_iff (h : t.Counts n k) {s : Step} (hs : s.amount.Sound) :
    (∃ o, t.step s = .error o) ↔ UInt64.size ≤ n + s.amount.total.toNat := by
  obtain ⟨u, hu, hcounts⟩ | ⟨hmany, hu⟩ := h.step hs
  · have hfew : n + s.amount.total.toNat < UInt64.size :=
      hcounts.total ▸ u.total.toNat_lt_size
    simp [hu, hfew]
  · simp [hu, hmany]

/-- **The passed cases never overflow first**: where their sum is refused, that of all cases is. -/
theorem checkedAdd_total (h : t.Counts n k) {s : Step} (hs : s.amount.Sound)
    (hpassed : checkedAdd t.passed s.amount.passed = .error .add) :
    checkedAdd t.total s.amount.total = .error .add := by
  have hle : t.passed.toNat + s.amount.passed.toNat ≤ t.total.toNat + s.amount.total.toNat :=
    Nat.add_le_add (UInt64.le_iff_toNat_le.mp h.sound) (UInt64.le_iff_toNat_le.mp hs)
  by_contra hfits
  have hroom : t.total.toNat + s.amount.total.toNat < UInt64.size := by
    by_contra hmany
    exact hfits (checkedAdd_of_le (Nat.le_of_not_lt hmany))
  obtain ⟨hok, -⟩ := checkedAdd_of_lt (lt_of_le_of_lt hle hroom)
  rw [hok] at hpassed
  cases hpassed

end Counts

/-- **Counting is exact in any order and in any groups.** From totals that make sense, steps that make
sense are all made if and only if the cases fit a word. Then the counters hold the exact sums, the
failures can be told and are the exact number, and the run is a success if there are none. The next
step is refused if and only if the cases would not fit any more, and it is never the passed cases that
do not. Counting the same steps in groups that are added later, in whatever order, gives the same. -/
theorem counts_exactly {t : Totals} (ht : t.Sound) {steps : List Step}
    (hsteps : ∀ s ∈ steps, s.amount.Sound) :
    ((∃ u, t.countAll steps = .ok u) ↔ t.total.toNat + cases steps < UInt64.size) ∧
    (∀ u, t.countAll steps = .ok u →
      u.total.toNat = t.total.toNat + cases steps ∧
      u.passed.toNat = t.passed.toNat + passes steps ∧
      u.passed ≤ u.total ∧
      (∃ failed, u.failed = .ok failed ∧ failed.toNat = t.failures + failuresOf steps) ∧
      (u.allPassed = true ↔ t.failures + failuresOf steps = 0) ∧
      (u.exitCode = 0 ↔ t.failures + failuresOf steps = 0) ∧
      ∀ s : Step, s.amount.Sound →
        ((∃ o, u.step s = .error o) ↔
          UInt64.size - 1 < t.total.toNat + cases (steps ++ [s])) ∧
        (checkedAdd u.passed s.amount.passed = .error .add →
          checkedAdd u.total s.amount.total = .error .add)) ∧
    ∀ plan : Plan, plan.steps.Perm steps → plan.count t = t.countAll steps := by
  have hcount := ht.counts.countAll hsteps
  have hfailures : t.failures + failuresOf steps =
      t.total.toNat + cases steps - (t.passed.toNat + passes steps) := by
    have hstart := ht.failures_add
    have hmore := failuresOf_add hsteps
    omega
  refine ⟨?_, ?_, ?_⟩
  · obtain ⟨u, hu, hcounts⟩ | ⟨hmany, hu⟩ := hcount
    · have hfew : t.total.toNat + cases steps < UInt64.size :=
        hcounts.total ▸ u.total.toNat_lt_size
      simp [hu, hfew]
    · simp [hu, hmany]
  · intro u hu
    obtain ⟨v, hv, hcounts⟩ | ⟨-, hrefused⟩ := hcount
    · cases hu.symm.trans hv
      obtain ⟨hfailed, hexact⟩ := hcounts.failed
      have hnone : t.failures + failuresOf steps = 0 ↔
          t.passed.toNat + passes steps = t.total.toNat + cases steps := by
        have hle := hcounts.passed_le_total
        omega
      refine ⟨hcounts.total, hcounts.passed, hcounts.sound, ⟨_, hfailed, ?_⟩, ?_, ?_, ?_⟩
      · rw [hexact, hfailures]
      · rw [hcounts.allPassed_iff, hnone]
      · rw [hnone]
        obtain ⟨hall, hcode⟩ | ⟨hsome, hcode⟩ := hcounts.exitCode_cases
        · simp [hall, hcode]
        · simp [hsome, hcode]
      · intro s hs
        refine ⟨?_, hcounts.checkedAdd_total hs⟩
        rw [hcounts.step_error_iff hs, cases_append, cases_cons, cases_nil]
        have hsize : 0 < UInt64.size := by decide
        omega
    · cases hu.symm.trans hrefused
  · intro plan hperm
    have hplan := ht.counts.plan (p := plan) fun s hs => hsteps s (hperm.mem_iff.mp hs)
    rw [cases_eq_of_perm hperm, passes_eq_of_perm hperm] at hplan
    -- both are exact, or both are refused
    obtain ⟨u, hu, hcounts⟩ | ⟨hmany, hu⟩ := hcount
    · obtain ⟨v, hv, hcounts'⟩ | ⟨hmany, -⟩ := hplan
      · rw [hu, hv, hcounts'.unique hcounts]
      · have hfew := hcounts.total ▸ u.total.toNat_lt_size
        omega
    · obtain ⟨v, hv, hcounts'⟩ | ⟨-, hv⟩ := hplan
      · have hfew := hcounts'.total ▸ v.total.toNat_lt_size
        omega
      · rw [hu, hv]

/-- Totals with room for three more cases. -/
def nearlyFull : Totals := ⟨0xFFFFFFFFFFFFFFFC, 5⟩

/-- Steps that count three cases, of which one has failed. -/
def lastSteps : List Step := [.add ⟨2, 1⟩, .record true]

/-- The last three cases fill the counter, in groups as well, and there is no room for another one. -/
theorem counts_exactly_sample :
    nearlyFull.Sound ∧ (∀ s ∈ lastSteps, s.amount.Sound) ∧
      nearlyFull.countAll lastSteps = .ok ⟨0xFFFFFFFFFFFFFFFF, 7⟩ ∧
      (∃ o, Totals.step ⟨0xFFFFFFFFFFFFFFFF, 7⟩ (.record false) = .error o) ∧
      (Plan.group (.step (.record true) (.group (.step (.add ⟨2, 1⟩) .done) .done)) .done).count
        nearlyFull = .ok ⟨0xFFFFFFFFFFFFFFFF, 7⟩ := by
  have ht : nearlyFull.Sound := by decide
  have hsteps : ∀ s ∈ lastSteps, s.amount.Sound := by decide
  have hcount : nearlyFull.countAll lastSteps = .ok ⟨0xFFFFFFFFFFFFFFFF, 7⟩ := by decide
  obtain ⟨-, hreached, hplan⟩ := counts_exactly ht hsteps
  obtain ⟨-, -, -, -, -, -, hnext⟩ := hreached _ hcount
  refine ⟨ht, hsteps, hcount, ?_, ?_⟩
  · exact (hnext (.record false) (by decide)).1.mpr (by decide)
  · have hswapped : (Plan.group (.step (.record true)
        (.group (.step (.add ⟨2, 1⟩) .done) .done)) .done).steps.Perm lastSteps :=
      List.Perm.swap _ _ _
    rw [hplan _ hswapped, hcount]

end Totals

end Conformance
