import Mathlib
import Conformance.Time.Binary64

set_option autoImplicit false

/-! # Rounding to whole numbers

`IsRounded a n` says that the whole number `n` is nearest to the rational number `a`, and even in a
tie. There is only one such number, and a greater `a` has no smaller one (`IsRounded.mono`,
`IsRounded.unique`). `roundHalfEven` computes it (`isRounded_roundHalfEven`).
-/

namespace Conformance

/-- **The whole number `n` is nearest to `a`**, and it is even if another one is as near. -/
structure IsRounded (a : ℚ) (n : ℕ) : Prop where
  close : |a - n| ≤ 1 / 2
  even_of_tie : |a - n| = 1 / 2 → Even n

namespace IsRounded

variable {a b : ℚ} {n k : ℕ}

theorem bounds (h : IsRounded a n) : (n : ℚ) - 1 / 2 ≤ a ∧ a ≤ n + 1 / 2 := by
  have := abs_le.mp h.close
  constructor <;> linarith

/-- **Rounding is monotone.** -/
theorem mono (ha : IsRounded a n) (hb : IsRounded b k) (hab : a ≤ b) : n ≤ k := by
  by_contra hlt
  have hstep : (k : ℚ) + 1 ≤ n := by exact_mod_cast Nat.lt_of_not_le hlt
  obtain ⟨hna, -⟩ := ha.bounds
  obtain ⟨-, hbk⟩ := hb.bounds
  -- There is no room between the two but for a tie, and neighbours are not both even.
  have hnk : (n : ℚ) = k + 1 := by linarith
  have htie : a = k + 1 / 2 := by linarith
  have hbeq : b = a := by linarith
  have hn : Even n := ha.even_of_tie (by rw [htie, hnk, abs_of_neg] <;> linarith)
  have hk : Even k := hb.even_of_tie (by rw [hbeq, htie, abs_of_pos] <;> linarith)
  have hsucc : n = k + 1 := by exact_mod_cast hnk
  rw [hsucc, Nat.even_add_one] at hn
  exact hn hk

theorem unique (h : IsRounded a n) (h' : IsRounded a k) : n = k :=
  Nat.le_antisymm (h.mono h' le_rfl) (h'.mono h le_rfl)

theorem natCast (n : ℕ) : IsRounded n n := by
  have hzero : |(n : ℚ) - n| = 0 := by simp
  exact ⟨by rw [hzero]; norm_num, fun h => by rw [hzero] at h; norm_num at h⟩

theorem nearest (h : IsRounded a n) (j : ℤ) : |a - n| ≤ |a - j| := by
  by_cases heq : j = n
  · rw [heq, Int.cast_natCast]
  · obtain ⟨hlow, hhigh⟩ := h.bounds
    refine h.close.trans ?_
    rcases lt_or_gt_of_ne heq with hlt | hgt
    · have : (j : ℚ) + 1 ≤ n := by exact_mod_cast hlt
      exact le_abs.mpr (Or.inl (by linarith))
    · have : (n : ℚ) + 1 ≤ j := by exact_mod_cast hgt
      exact le_abs.mpr (Or.inr (by linarith))

theorem even_of_eq (h : IsRounded a n) {j : ℤ} (hne : j ≠ n) (heq : |a - j| = |a - n|) :
    Even n := by
  refine h.even_of_tie (le_antisymm h.close ?_)
  have hgap : (1 : ℚ) ≤ |(j : ℚ) - n| := by exact_mod_cast Int.one_le_abs (sub_ne_zero.mpr hne)
  have htriangle : |(j : ℚ) - n| ≤ |(j : ℚ) - a| + |a - n| := abs_sub_le _ _ _
  rw [abs_sub_comm (j : ℚ) a, heq] at htriangle
  linarith

theorem eq_of_abs_sub_lt (h : IsRounded a n) (hlt : |a - k| < 1 / 2) : n = k := by
  have hk : IsRounded a k := ⟨hlt.le, fun htie => absurd htie hlt.ne⟩
  exact h.unique hk

/-- What is rounded to zero is at most a half. -/
theorem eq_zero_iff (h : IsRounded a n) : n = 0 ↔ a ≤ 1 / 2 := by
  constructor
  · rintro rfl
    simpa using h.bounds.2
  · intro hle
    have hhalf : IsRounded (1 / 2) 0 := ⟨by norm_num, fun _ => Even.zero⟩
    exact Nat.le_zero.mp (h.mono hhalf hle)

end IsRounded

/-- **`roundHalfEven` rounds a ratio to the nearest whole number**, in a tie to the even one. -/
theorem isRounded_roundHalfEven (num : ℕ) {den : ℕ} (hden : 0 < den) :
    IsRounded ((num : ℚ) / den) (roundHalfEven num den) := by
  have hpos : (0 : ℚ) < den := by exact_mod_cast hden
  -- The ratio is the quotient and the share that the rest has of the denominator.
  have hratio : (num : ℚ) / den = (num / den : ℕ) + ((num % den : ℕ) : ℚ) / den := by
    rw [div_eq_iff hpos.ne', add_mul, div_mul_cancel₀ _ hpos.ne']
    exact_mod_cast (Nat.div_add_mod' num den).symm
  set quotient := num / den with hquotient
  set rest := num % den with hrest
  set share : ℚ := (rest : ℚ) / den with hshare
  have hshare0 : 0 ≤ share := by positivity
  have hround : roundHalfEven num den =
      if 2 * rest < den then quotient
      else if den < 2 * rest then quotient + 1
      else quotient + quotient % 2 := rfl
  rw [hround, hratio]
  split_ifs with hlow hhigh
  · have hlt : share < 1 / 2 := by
      rw [hshare, div_lt_div_iff₀ hpos two_pos, one_mul]
      exact_mod_cast (by omega : rest * 2 < den)
    have habs : |(quotient : ℚ) + share - quotient| = share := by
      rw [add_sub_cancel_left, abs_of_nonneg hshare0]
    rw [← habs] at hlt
    exact ⟨hlt.le, fun htie => absurd htie hlt.ne⟩
  · have hgt : 1 / 2 < share := by
      rw [hshare, div_lt_div_iff₀ two_pos hpos, one_mul]
      exact_mod_cast (by omega : den < rest * 2)
    have hone : share < 1 := by
      rw [hshare, div_lt_one hpos]
      exact_mod_cast Nat.mod_lt num hden
    have habs : |(quotient : ℚ) + share - (quotient + 1 : ℕ)| = 1 - share := by
      rw [abs_of_neg] <;> push_cast <;> linarith
    have hlt : |(quotient : ℚ) + share - (quotient + 1 : ℕ)| < 1 / 2 := by rw [habs]; linarith
    exact ⟨hlt.le, fun htie => absurd htie hlt.ne⟩
  · have hhalf : share = 1 / 2 := by
      rw [hshare, div_eq_div_iff hpos.ne' two_ne_zero, one_mul]
      exact_mod_cast (by omega : rest * 2 = den)
    have heven : Even (quotient + quotient % 2) := by rw [Nat.even_iff]; omega
    refine ⟨?_, fun _ => heven⟩
    rw [hhalf]
    rcases Nat.mod_two_eq_zero_or_one quotient with h | h
    · rw [h]
      norm_num
    · rw [h]
      push_cast
      rw [abs_of_neg] <;> linarith

/-- Every nonnegative number is rounded to some whole number. -/
theorem exists_isRounded {a : ℚ} (ha : 0 ≤ a) : ∃ n, IsRounded a n := by
  have hratio : ((a.num.toNat : ℕ) : ℚ) / a.den = a := by
    have hnum : ((a.num.toNat : ℕ) : ℤ) = a.num := Int.toNat_of_nonneg (Rat.num_nonneg.mpr ha)
    rw [← Int.cast_natCast, hnum, Rat.num_div_den]
  exact ⟨_, hratio ▸ isRounded_roundHalfEven a.num.toNat a.den_pos⟩

end Conformance
