import Conformance.Proofs.Walk.Run

set_option autoImplicit false

/-! # Outcomes do not steer a walk

Two walks over the same files, at the same depth, whose cases have different outcomes: they run the
same cases in the same order and stop for the same reason, if they stop
(`View.runSuites_independent`). What differs is how many of the cases pass, and that never decides
anything, not even whether the totals overflow: the passed cases are never too many first.

The relation that every operation of a walk keeps is `Walk.Together`.
-/

namespace Conformance

/-- **Two results that differ in the passed cases at most.** -/
inductive Alike {ε : Type} : Except ε Totals → Except ε Totals → Prop
  | ok {t t' : Totals} {n k k' : Nat} : t.Counts n k → t'.Counts n k' → Alike (.ok t) (.ok t')
  | error (e : ε) : Alike (.error e) (.error e)

namespace Alike

variable {ε δ : Type} {r r' : Except ε Totals}

theorem mapError (f : ε → δ) (h : Alike r r') : Alike (r.mapError f) (r'.mapError f) := by
  cases h with
  | ok ht ht' => exact .ok ht ht'
  | error e => exact .error (f e)

theorem error_iff (h : Alike r r') (e : ε) : r = .error e ↔ r' = .error e := by
  cases h with
  | ok _ _ => simp
  | error _ => exact Iff.rfl

variable {t t' : Totals} {n k k' : Nat}

/-- One more case is counted in both, or in neither. -/
theorem record (ht : t.Counts n k) (ht' : t'.Counts n k') (b b' : Bool) :
    Alike (t.record b) (t'.record b') := by
  rcases ht.record b with ⟨u, hu, hc⟩ | ⟨hmany, he⟩ <;>
    rcases ht'.record b' with ⟨u', hu', hc'⟩ | ⟨hmany', he'⟩
  · rw [hu, hu']
    exact .ok hc hc'
  -- Both count the same number of cases, so that neither overflows alone.
  · exact absurd (hc.total ▸ u.total.toNat_lt) (Nat.not_lt_of_le hmany')
  · exact absurd (hc'.total ▸ u'.total.toNat_lt) (Nat.not_lt_of_le hmany)
  · rw [he, he']
    exact .error _

/-- The cases of another directory are counted in both, or in neither. -/
theorem add {i i' : Totals} {m j j' : Nat} (ht : t.Counts n k) (ht' : t'.Counts n k')
    (hi : i.Counts m j) (hi' : i'.Counts m j') : Alike (t.add i) (t'.add i') := by
  rcases ht.add hi with ⟨u, hu, hc⟩ | ⟨hmany, he⟩ <;>
    rcases ht'.add hi' with ⟨u', hu', hc'⟩ | ⟨hmany', he'⟩
  · rw [hu, hu']
    exact .ok hc hc'
  · exact absurd (hc.total ▸ u.total.toNat_lt) (Nat.not_lt_of_le hmany')
  · exact absurd (hc'.total ▸ u'.total.toNat_lt) (Nat.not_lt_of_le hmany)
  · rw [he, he']
    exact .error _

end Alike

namespace Walk

variable {v : View} {s : Settings} {o o' : TestCase → Outcome}

/-- **Two walks that run the same cases and end alike**, each reporting its own outcomes. -/
def Together (s : Settings) (o o' : TestCase → Outcome) (x x' : Walk (List TestCase) Totals) :
    Prop :=
  ∃ cs r r', Plays x (s.casesActs o cs) r ∧ Plays x' (s.casesActs o' cs) r' ∧ Alike r r'

theorem together_visitPath {enter enter' : Path → Walk (List TestCase) Totals}
    (henter : ∀ dir, Together s o o' (enter dir) (enter' dir)) {t t' : Totals} {n k k' : Nat}
    (ht : t.Counts n k) (ht' : t'.Counts n k') (p : Path) :
    Together s o o' (visitPath (v.machineOf o) s enter t p)
      (visitPath (v.machineOf o') s enter' t' p) := by
  have hask : ∀ o, Plays (ask ((v.machineOf o).isDirectory p)) [] (.ok (v.isDirectory p)) :=
    fun _ => .ask _
  unfold visitPath
  cases hd : v.isDirectory p with
  | true =>
      rw [hd] at hask
      -- Inside the directory both walks play the same cases; they differ in the passes they count.
      obtain ⟨cs, r, r', hplays, hplays', halike⟩ := henter p
      cases halike with
      | error reason =>
          exact ⟨cs, _, _, (hask o).bind (.bind_error _ hplays),
            (hask o').bind (.bind_error _ hplays'), .error reason⟩
      | @ok i i' _ _ _ hi hi' =>
          refine ⟨cs, _, _, ?_, ?_, (Alike.add ht ht' hi hi').mapError Stop.overflow⟩
          · refine .of_eq ((hask o).bind (.bind hplays (.orStop .overflow (t.add i)))) ?_
            simp
          · refine .of_eq ((hask o').bind (.bind hplays' (.orStop .overflow (t'.add i')))) ?_
            simp
  | false =>
      rw [hd] at hask
      cases hs : s.isScript p with
      | true =>
          refine ⟨[⟨p⟩], _, _, ?_, ?_,
            (Alike.record ht ht' (o ⟨p⟩).passes (o' ⟨p⟩).passes).mapError Stop.overflow⟩
          · refine .of_eq ((hask o).bind (.bind (plays_runCase v s o ⟨p⟩)
              (.orStop .overflow (t.record (o ⟨p⟩).passes)))) ?_
            simp
          · refine .of_eq ((hask o').bind (.bind (plays_runCase v s o' ⟨p⟩)
              (.orStop .overflow (t'.record (o' ⟨p⟩).passes)))) ?_
            simp
      | false =>
          exact ⟨[], _, _, (hask o).bind (.pure t), (hask o').bind (.pure t'), .ok ht ht'⟩

theorem together_visitPaths {enter enter' : Path → Walk (List TestCase) Totals}
    (henter : ∀ dir, Together s o o' (enter dir) (enter' dir)) (ps : List Path) {t t' : Totals}
    {n k k' : Nat} (ht : t.Counts n k) (ht' : t'.Counts n k') :
    Together s o o' (visitPaths (v.machineOf o) s enter t ps)
      (visitPaths (v.machineOf o') s enter' t' ps) := by
  induction ps generalizing t t' n k k' with
  | nil => exact ⟨[], _, _, .pure t, .pure t', .ok ht ht'⟩
  | cons p ps ih =>
      obtain ⟨cs, r, r', hplays, hplays', halike⟩ := together_visitPath (v := v) henter ht ht' p
      cases halike with
      | error reason =>
          exact ⟨cs, _, _, .bind_error _ hplays, .bind_error _ hplays', .error reason⟩
      | ok hu hu' =>
          obtain ⟨ds, r, r', hrest, hrest', halike⟩ := ih hu hu'
          refine ⟨cs ++ ds, r, r', ?_, ?_, halike⟩
          · refine .of_eq (.bind hplays hrest) ?_
            simp
          · refine .of_eq (.bind hplays' hrest') ?_
            simp

theorem together_visit (v : View) (s : Settings) (o o' : TestCase → Outcome) (depth : Nat)
    (dir : Path) :
    Together s o o' (visit (v.machineOf o) s depth dir) (visit (v.machineOf o') s depth dir) := by
  induction depth generalizing dir with
  | zero => exact ⟨[], _, _, .stop .tooDeep, .stop .tooDeep, .error Stop.tooDeep⟩
  | succ depth ih =>
      have hlist : ∀ o, Plays (ask ((v.machineOf o).list dir)) [] (.ok (v.list dir)) :=
        fun _ => .ask _
      cases hl : v.list dir with
      | error cause =>
          rw [hl] at hlist
          have hstop : Plays (orStop (fun cause => .failed (.discovery dir cause))
              (.error cause : Except IoError (List Bytes))) [] _ := .orStop _ _
          exact ⟨[], _, _, (hlist o).bind (.bind_error _ hstop),
            (hlist o').bind (.bind_error _ hstop), .error _⟩
      | ok names =>
          rw [hl] at hlist
          have hnames : Plays (orStop (fun cause => .failed (.discovery dir cause))
              (.ok names : Except IoError (List Bytes))) [] (.ok names) := .orStop _ _
          obtain ⟨cs, r, r', hplays, hplays', halike⟩ := together_visitPaths (v := v) ih
            (entryPaths dir names) Totals.counts_zero Totals.counts_zero
          exact ⟨cs, r, r', (hlist o).bind (hnames.bind hplays),
            (hlist o').bind (hnames.bind hplays'), halike⟩

end Walk

/-- **Outcomes do not steer a run**: whatever they are, the same cases are run and the results are
alike. -/
theorem View.runSuites_independent (v : View) (s : Settings) (o o' : TestCase → Outcome)
    (depth : Nat) :
    Alike (v.runSuites o s depth .unlimited).1 (v.runSuites o' s depth .unlimited).1 ∧
      (v.runSuites o s depth .unlimited).2.state = (v.runSuites o' s depth .unlimited).2.state := by
  obtain ⟨cs, r, r', hplays, hplays', halike⟩ :=
    Walk.together_visit v s o o' depth s.root
  have hcounts : ∀ t, r = .ok t → ∃ n k, t.Counts n k := by
    rintro t rfl
    cases halike with
    | ok ht _ => exact ⟨_, _, ht⟩
  have hcounts' : ∀ t, r' = .ok t → ∃ n k, t.Counts n k := by
    rintro t rfl
    cases halike with
    | ok _ ht' => exact ⟨_, _, ht'⟩
  rw [runSuites_unlimited (plays_runSuites hplays hcounts),
    runSuites_unlimited (plays_runSuites hplays' hcounts')]
  exact ⟨halike, rfl⟩

end Conformance
