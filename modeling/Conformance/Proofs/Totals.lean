import Conformance.Totals

set_option autoImplicit false

/-! # Counting with totals

The counters of `Totals` are words. `Totals.Counts t n k` says that they stand for the numbers `n`
of cases run and `k` of cases passed. Counting on either gives totals that stand for the exact sums
or is refused because the number of cases does not fit a word (`Totals.Counts.record`,
`Totals.Counts.add`); the passed cases are never too many first.
-/

namespace Conformance

theorem checkedAdd_of_lt {a b : UInt64} (h : a.toNat + b.toNat < UInt64.size) :
    checkedAdd a b = .ok (a + b) ∧ (a + b).toNat = a.toNat + b.toNat :=
  ⟨if_pos h, by rw [UInt64.toNat_add, Nat.mod_eq_of_lt h]⟩

theorem checkedAdd_of_le {a b : UInt64} (h : UInt64.size ≤ a.toNat + b.toNat) :
    checkedAdd a b = .error .add := if_neg (by omega)

namespace Totals

/-- The totals stand for `n` cases of which `k` have passed. -/
structure Counts (t : Totals) (n k : Nat) : Prop where
  total : t.total.toNat = n
  passed : t.passed.toNat = k
  passed_le_total : k ≤ n

theorem counts_zero : zero.Counts 0 0 := ⟨rfl, rfl, Nat.le_refl 0⟩

namespace Counts

variable {t u : Totals} {n k : Nat}

/-- Totals are known by the numbers that they stand for. -/
theorem unique (h : t.Counts n k) (h' : u.Counts n k) : t = u := by
  obtain ⟨total, passed⟩ := t
  obtain ⟨total', passed'⟩ := u
  have htotal : total = total' := UInt64.toNat_inj.mp (h.total.trans h'.total.symm)
  have hpassed : passed = passed' := UInt64.toNat_inj.mp (h.passed.trans h'.passed.symm)
  rw [htotal, hpassed]

/-- **Counting one more case** is exact, or refused because there are too many cases. -/
theorem record (h : t.Counts n k) (b : Bool) :
    (∃ t', t.record b = .ok t' ∧ t'.Counts (n + 1) (k + b.toNat)) ∨
      UInt64.size ≤ n + 1 ∧ t.record b = .error .add := by
  obtain ⟨rfl, rfl, hle⟩ := h
  have hone : (1 : UInt64).toNat = 1 := rfl
  by_cases hfit : t.total.toNat + 1 < UInt64.size
  · left
    -- The passed cases fit because they are not more than all of them.
    obtain ⟨htotal, htotal'⟩ := checkedAdd_of_lt (a := t.total) (b := 1) (by rw [hone]; exact hfit)
    obtain ⟨hpassed, hpassed'⟩ :=
      checkedAdd_of_lt (a := t.passed) (b := 1) (by rw [hone]; omega)
    rw [hone] at htotal' hpassed'
    cases b with
    | false =>
        refine ⟨⟨t.total + 1, t.passed⟩, ?_, htotal', rfl, Nat.le_succ_of_le hle⟩
        simp [Totals.record, htotal, bind, Except.bind, pure, Except.pure]
    | true =>
        refine ⟨⟨t.total + 1, t.passed + 1⟩, ?_, htotal', hpassed', Nat.succ_le_succ hle⟩
        simp [Totals.record, htotal, hpassed, bind, Except.bind, pure, Except.pure]
  · right
    refine ⟨Nat.le_of_not_lt hfit, ?_⟩
    have := checkedAdd_of_le (a := t.total) (b := 1) (by rw [hone]; omega)
    simp [Totals.record, this, bind, Except.bind]

/-- **Counting the cases of another directory** is exact, or refused because there are too many
cases. -/
theorem add {t' : Totals} {n' k' : Nat} (h : t.Counts n k) (h' : t'.Counts n' k') :
    (∃ u, t.add t' = .ok u ∧ u.Counts (n + n') (k + k')) ∨
      UInt64.size ≤ n + n' ∧ t.add t' = .error .add := by
  obtain ⟨rfl, rfl, hle⟩ := h
  obtain ⟨rfl, rfl, hle'⟩ := h'
  by_cases hfit : t.total.toNat + t'.total.toNat < UInt64.size
  · left
    obtain ⟨htotal, htotal'⟩ := checkedAdd_of_lt hfit
    obtain ⟨hpassed, hpassed'⟩ := checkedAdd_of_lt (a := t.passed) (b := t'.passed) (by omega)
    refine ⟨⟨t.total + t'.total, t.passed + t'.passed⟩, ?_, htotal', hpassed', by omega⟩
    simp [Totals.add, htotal, hpassed, bind, Except.bind, pure, Except.pure]
  · right
    refine ⟨Nat.le_of_not_lt hfit, ?_⟩
    simp [Totals.add, checkedAdd_of_le (Nat.le_of_not_lt hfit), bind, Except.bind]

theorem failed (h : t.Counts n k) : t.failed = .ok (t.total - t.passed) ∧
    (t.total - t.passed).toNat = n - k := by
  obtain ⟨rfl, rfl, hle⟩ := h
  have hle' : t.passed ≤ t.total := UInt64.le_iff_toNat_le.mpr hle
  exact ⟨if_pos hle', UInt64.toNat_sub_of_le _ _ hle'⟩

theorem allPassed_iff (h : t.Counts n k) : t.allPassed = true ↔ k = n := by
  obtain ⟨rfl, rfl, -⟩ := h
  simp [allPassed, UInt64.toNat_inj]

/-- The exit status tells whether all cases have passed. -/
theorem exitCode_cases (h : t.Counts n k) : k = n ∧ t.exitCode = 0 ∨ k ≠ n ∧ t.exitCode = 1 := by
  by_cases hall : k = n
  · exact Or.inl ⟨hall, if_pos (h.allPassed_iff.mpr hall)⟩
  · exact Or.inr ⟨hall, if_neg fun hpassed => hall (h.allPassed_iff.mp hpassed)⟩

end Counts

end Totals

end Conformance
