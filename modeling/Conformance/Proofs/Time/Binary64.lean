import Conformance.Proofs.Time.Rounding

set_option autoImplicit false

/-! # The 64-bit binary format

The nonnegative finite numbers of the format (`Binary64.IsValue`), and what it is for one of them to
be nearest to a rational number, in a tie with an even last place (`Binary64.IsNearest`). Neither
mentions how rounding is done. There is at most one nearest number, and greater numbers have no
smaller one (`IsNearest.unique`, `IsNearest.mono`).

Around a given exponent the numbers of the format are of two kinds: multiples of that power of two,
and numbers below all those that have a full significand there (`IsValue.grid`). All estimates below
come from this: the gap behind a number, the nearest number as a rounded significand
(`isNearest_of_rounded`), which side of the middle between two neighbours is rounded to which of them
(`IsNearest.le_iff_of_even`, `IsNearest.le_iff_of_odd`), hence the smallest positive number
(`IsNearest.pos_iff`) and the numbers of seconds that fit a word (`IsNearest.lt_iff`), and how far off
a nearest number can be (`IsNearest.abs_sub_le`).

`Binary64.nearest` computes the nearest number, or finds out that there is none
(`Binary64.nearest_cases`).
-/

namespace Conformance

namespace Binary64

/-! ## The numbers of the format -/

/-- **The nonnegative finite numbers of the format**: 53 binary places, the last of which lies
between `2 ^ -1074` and `2 ^ 971`. -/
def IsValue (x : ℚ) : Prop :=
  ∃ (m : ℕ) (e : ℤ), m < 2 ^ 53 ∧ -1074 ≤ e ∧ e ≤ 971 ∧ x = m * 2 ^ e

/-- **The significand and the exponent of a number**, with as many places as it can have. -/
structure HasDigits (x : ℚ) (m : ℕ) (e : ℤ) : Prop where
  eq : x = m * 2 ^ e
  lt : m < 2 ^ 53
  low : -1074 ≤ e
  high : e ≤ 971
  full : e = -1074 ∨ 2 ^ 52 ≤ m

/-- The last place of a number is zero. -/
def IsEven (x : ℚ) : Prop := ∃ m e, HasDigits x m e ∧ Even m

/-- **The number `x` of the format is nearest to `v`**, and its last place is zero if another one is
as near. -/
structure IsNearest (v x : ℚ) : Prop where
  value : IsValue x
  closest : ∀ y, IsValue y → |v - x| ≤ |v - y|
  even_of_tie : ∀ y, IsValue y → y ≠ x → |v - y| = |v - x| → IsEven x

/-- The least number that is rounded to none of the format, the middle behind the greatest of them. -/
def overflow : ℚ := 2 ^ 1024 - 2 ^ 970

theorem two_zpow_pos (e : ℤ) : (0 : ℚ) < 2 ^ e := zpow_pos two_pos e

theorem overflow_eq : overflow = (2 ^ 53 - 1 / 2) * 2 ^ (971 : ℤ) := by
  have hplace : (2 : ℚ) ^ (971 : ℤ) = 2 ^ (1 + 970) := zpow_natCast 2 (1 + 970)
  have hgreat : (2 : ℚ) ^ 1024 = 2 ^ 54 * 2 ^ 970 := pow_add 2 54 970
  rw [overflow, hplace, hgreat, pow_add]
  generalize (2 : ℚ) ^ 970 = last
  ring

theorem word_lt_overflow : (2 : ℚ) ^ 64 < overflow := by
  rw [overflow_eq]
  calc (2 : ℚ) ^ 64 = 2 ^ (64 : ℤ) := (zpow_natCast _ _).symm
    _ < 2 ^ (971 : ℤ) := zpow_lt_zpow_right₀ one_lt_two (by norm_num)
    _ ≤ (2 ^ 53 - 1 / 2) * 2 ^ (971 : ℤ) := le_mul_of_one_le_left (two_zpow_pos _).le (by norm_num)

theorem HasDigits.isValue {x : ℚ} {m : ℕ} {e : ℤ} (h : HasDigits x m e) : IsValue x :=
  ⟨m, e, h.lt, h.low, h.high, h.eq⟩

theorem IsValue.nonneg {x : ℚ} (h : IsValue x) : 0 ≤ x := by
  obtain ⟨m, e, -, -, -, rfl⟩ := h
  positivity

theorem isValue_zero : IsValue 0 := ⟨0, 0, by norm_num, by norm_num, by norm_num, by norm_num⟩

/-- What has a smaller exponent is smaller than what has a full significand. -/
theorem mul_zpow_lt {m : ℕ} {e e' : ℤ} (hm : m < 2 ^ 53) (he : e < e') :
    (m : ℚ) * 2 ^ e < 2 ^ 52 * 2 ^ e' := by
  have hm' : (m : ℚ) < 2 ^ 53 := by exact_mod_cast hm
  calc (m : ℚ) * 2 ^ e < 2 ^ 53 * 2 ^ e := mul_lt_mul_of_pos_right hm' (two_zpow_pos e)
    _ = 2 ^ 52 * 2 ^ (e + 1) := by rw [zpow_add_one₀ two_ne_zero]; ring
    _ ≤ 2 ^ 52 * 2 ^ e' := by gcongr <;> linarith

/-- **The numbers of the format around an exponent**: multiples of that power of two, and numbers
that are smaller than all with a full significand. -/
theorem IsValue.grid {y : ℚ} (h : IsValue y) (e : ℤ) :
    (∃ j : ℕ, y = j * 2 ^ e) ∨ y < 2 ^ 52 * 2 ^ e ∧ -1074 < e := by
  obtain ⟨m, e', hm, hlow, -, rfl⟩ := h
  by_cases he : e ≤ e'
  · left
    refine ⟨m * 2 ^ (e' - e).toNat, ?_⟩
    have hexp : (2 : ℚ) ^ e' = 2 ^ (e' - e).toNat * 2 ^ e := by
      rw [← zpow_natCast, Int.toNat_of_nonneg (by omega), ← zpow_add₀ two_ne_zero]
      congr 1
      omega
    rw [hexp]
    push_cast
    ring
  · exact Or.inr ⟨mul_zpow_lt hm (by omega), by omega⟩

theorem HasDigits.unique {x : ℚ} {m m' : ℕ} {e e' : ℤ} (h : HasDigits x m e)
    (h' : HasDigits x m' e') : m = m' ∧ e = e' := by
  -- A greater exponent would make the number greater.
  have hnot : ∀ {m m' : ℕ} {e e' : ℤ}, HasDigits x m e → HasDigits x m' e' → ¬ e < e' := by
    intro m m' e e' h h' hlt
    have hfull : 2 ^ 52 ≤ m' := h'.full.resolve_left (by have := h.low; omega)
    have hle : (2 : ℚ) ^ 52 * 2 ^ e' ≤ m' * 2 ^ e' :=
      mul_le_mul_of_nonneg_right (by exact_mod_cast hfull) (two_zpow_pos e').le
    have := mul_zpow_lt h.lt hlt
    rw [← h.eq, h'.eq] at this
    exact absurd hle (not_le.mpr this)
  have he : e = e' := by
    have := hnot h h'
    have := hnot h' h
    omega
  subst he
  have hm := h.eq.symm.trans h'.eq
  rw [mul_left_inj' (two_zpow_pos e).ne'] at hm
  exact ⟨by exact_mod_cast hm, rfl⟩

/-- **The gap behind a number** is as wide as its last place. -/
theorem HasDigits.add_le {x y : ℚ} {m : ℕ} {e : ℤ} (h : HasDigits x m e) (hy : IsValue y)
    (hlt : x < y) : x + 2 ^ e ≤ y := by
  have hpos := two_zpow_pos e
  rw [h.eq] at hlt ⊢
  obtain ⟨j, rfl⟩ | ⟨hsmall, he⟩ := hy.grid e
  · have hj : (m : ℚ) < j := lt_of_mul_lt_mul_right hlt hpos.le
    have hj' : (m : ℚ) + 1 ≤ j := by exact_mod_cast hj
    calc (m : ℚ) * 2 ^ e + 2 ^ e = (m + 1) * 2 ^ e := by ring
      _ ≤ j * 2 ^ e := mul_le_mul_of_nonneg_right hj' hpos.le
  · have hfull : (2 : ℚ) ^ 52 ≤ m := by exact_mod_cast h.full.resolve_left (by omega)
    have := mul_le_mul_of_nonneg_right hfull hpos.le
    linarith

/-- The next number after an even one is odd. -/
theorem HasDigits.add {x : ℚ} {m : ℕ} {e : ℤ} (h : HasDigits x m e) (hm : Even m) :
    HasDigits (x + 2 ^ e) (m + 1) e where
  eq := by rw [h.eq]; push_cast; ring
  lt := by have := h.lt; rw [Nat.even_iff] at hm; omega
  low := h.low
  high := h.high
  full := h.full.imp_right fun hfull => by omega

/-! ## The nearest number -/

/-- Of two numbers the greater one is as near if and only if the middle is not behind. -/
theorem abs_sub_le_iff_right {v x y : ℚ} (h : x < y) : |v - y| ≤ |v - x| ↔ x + y ≤ 2 * v := by
  rw [← sq_le_sq]
  constructor <;> intro hle <;> nlinarith

theorem abs_sub_le_iff_left {v x y : ℚ} (h : x < y) : |v - x| ≤ |v - y| ↔ 2 * v ≤ x + y := by
  rw [← sq_le_sq]
  constructor <;> intro hle <;> nlinarith

/-- A number in the middle of two others is as near to the one as to the other. -/
theorem abs_sub_eq_of_middle {v x y : ℚ} (h : x < y) (hv : 2 * v = x + y) : |v - y| = |v - x| :=
  le_antisymm ((abs_sub_le_iff_right h).mpr hv.ge) ((abs_sub_le_iff_left h).mpr hv.le)

namespace IsNearest

variable {v v' x x' : ℚ}

/-- **Two numbers that are nearest to the same one would be neighbours**, and both of them even. -/
theorem not_lt_of_same (h : IsNearest v x) (h' : IsNearest v x') : ¬ x < x' := by
  intro hlt
  have htie : |v - x'| = |v - x| := le_antisymm (h'.closest x h.value) (h.closest x' h'.value)
  have hmiddle : 2 * v = x + x' :=
    le_antisymm ((abs_sub_le_iff_left hlt).mp htie.ge) ((abs_sub_le_iff_right hlt).mp htie.le)
  obtain ⟨m, e, hdigits, hm⟩ := h.even_of_tie x' h'.value hlt.ne' htie
  obtain ⟨m', e', hdigits', hm'⟩ := h'.even_of_tie x h.value hlt.ne htie.symm
  -- The next number behind `x` is `x'`, since it would be nearer if it lay before.
  have hpos := two_zpow_pos e
  have hgap : x + 2 ^ e ≤ x' := hdigits.add_le h'.value hlt
  have hnear : 2 * v ≤ x + (x + 2 ^ e) :=
    (abs_sub_le_iff_left (by linarith)).mp (h.closest _ (hdigits.add hm).isValue)
  have heq : x' = x + 2 ^ e := by linarith
  rw [heq] at hdigits'
  obtain ⟨hodd, -⟩ := hdigits'.unique (hdigits.add hm)
  rw [hodd, Nat.even_add_one] at hm'
  exact hm' hm

theorem unique (h : IsNearest v x) (h' : IsNearest v x') : x = x' :=
  le_antisymm (not_lt.mp (h'.not_lt_of_same h)) (not_lt.mp (h.not_lt_of_same h'))

/-- **Rounding to the format is monotone.** -/
theorem mono (h : IsNearest v x) (h' : IsNearest v' x') (hle : v ≤ v') : x ≤ x' := by
  by_contra hlt
  rw [not_le] at hlt
  -- Each of the two lies on its own side of the middle, so that both lie there.
  have hv : x' + x ≤ 2 * v := (abs_sub_le_iff_right hlt).mp (h.closest x' h'.value)
  have hv' : 2 * v' ≤ x' + x := (abs_sub_le_iff_left hlt).mp (h'.closest x h.value)
  have heq : v' = v := by linarith
  rw [heq] at h'
  exact hlt.ne (h'.unique h)

/-! Between two neighbours `a` and `a + 2 ^ e`, their middle decides. -/

section Neighbours

variable {a : ℚ} {m : ℕ} {e : ℤ}

/-- The numbers that are rounded to `a` or less are not behind the middle. -/
theorem two_mul_le_of_le (h : IsNearest v x) (hnext : IsValue (a + 2 ^ e)) (hx : x ≤ a) :
    2 * v ≤ a + (a + 2 ^ e) := by
  have hpos := two_zpow_pos e
  have := (abs_sub_le_iff_left (by linarith)).mp (h.closest _ hnext)
  linarith

/-- The numbers that are rounded to more are not before it. -/
theorem le_two_mul_of_lt (h : IsNearest v x) (ha : HasDigits a m e) (hx : a < x) :
    a + 2 ^ e ≤ x ∧ a + x ≤ 2 * v :=
  ⟨ha.add_le h.value hx, (abs_sub_le_iff_right hx).mp (h.closest _ ha.isValue)⟩

/-- **The middle behind an even number** is rounded down. -/
theorem le_iff_of_even (h : IsNearest v x) (ha : HasDigits a m e) (hm : Even m) :
    x ≤ a ↔ 2 * v ≤ a + (a + 2 ^ e) := by
  refine ⟨h.two_mul_le_of_le (ha.add hm).isValue, fun hv => not_lt.mp fun hx => ?_⟩
  obtain ⟨hgap, hmiddle⟩ := h.le_two_mul_of_lt ha hx
  -- Only in a tie could the next number be nearest, but it is odd.
  have hxeq : x = a + 2 ^ e := by linarith
  have htie := abs_sub_eq_of_middle hx (v := v) (by linarith)
  obtain ⟨m', e', hdigits, hm'⟩ := h.even_of_tie a ha.isValue hx.ne htie.symm
  rw [hxeq] at hdigits
  obtain ⟨rfl, -⟩ := hdigits.unique (ha.add hm)
  rw [Nat.even_add_one] at hm'
  exact hm' hm

/-- **The middle behind an odd number** is rounded up. -/
theorem le_iff_of_odd (h : IsNearest v x) (ha : HasDigits a m e) (hm : ¬ Even m)
    (hnext : IsValue (a + 2 ^ e)) : x ≤ a ↔ 2 * v < a + (a + 2 ^ e) := by
  constructor
  · intro hx
    refine lt_of_le_of_ne (h.two_mul_le_of_le hnext hx) fun heq => ?_
    have hlt : x < a + 2 ^ e := by linarith [two_zpow_pos e]
    have hmiddle := (abs_sub_le_iff_left hlt).mp (h.closest _ hnext)
    -- In the tie the nearest number is `a`, which is not even.
    have hxeq : x = a := by linarith
    rw [← hxeq] at heq
    have htie := abs_sub_eq_of_middle hlt (v := v) (by linarith)
    obtain ⟨m', e', hdigits, hm'⟩ := h.even_of_tie _ hnext hlt.ne' htie
    rw [hxeq] at hdigits
    obtain ⟨rfl, -⟩ := hdigits.unique ha
    exact hm hm'
  · intro hv
    refine not_lt.mp fun hx => ?_
    obtain ⟨hgap, hmiddle⟩ := h.le_two_mul_of_lt ha hx
    linarith

end Neighbours

/-- **The positive numbers that are not rounded to zero** are those above half the smallest one. -/
theorem pos_iff (h : IsNearest v x) : 0 < x ↔ 2 ^ (-1075 : ℤ) < v := by
  have hhalf : (2 : ℚ) ^ (-1074 : ℤ) = 2 * 2 ^ (-1075 : ℤ) := by
    rw [← zpow_one_add₀ two_ne_zero]
    norm_num
  have hzero : HasDigits 0 0 (-1074) :=
    ⟨by norm_num, by norm_num, le_rfl, by norm_num, Or.inl rfl⟩
  rw [← not_le, ← not_le, h.le_iff_of_even hzero Even.zero, hhalf, zero_add, zero_add,
    mul_le_mul_iff_right₀ two_pos]

end IsNearest

/-- The numbers of the format below `2 ^ 64` end before the last places of a full significand. -/
theorem IsValue.le_of_lt_word {x : ℚ} (h : IsValue x) (hx : x < 2 ^ 64) : x ≤ 2 ^ 64 - 2 ^ 11 := by
  obtain ⟨j, rfl⟩ | ⟨hsmall, -⟩ := h.grid 11
  · have hplace : (2 : ℚ) ^ (11 : ℤ) = 2048 := by norm_num
    rw [hplace] at hx ⊢
    have hj : (j : ℚ) < 2 ^ 53 := by linarith
    have hj' : (j : ℚ) + 1 ≤ 2 ^ 53 := by exact_mod_cast hj
    linarith
  · have hplace : (2 : ℚ) ^ 52 * 2 ^ (11 : ℤ) = 2 ^ 63 := by norm_num
    rw [hplace] at hsmall
    linarith

/-- **The numbers that are rounded to less than `2 ^ 64`** are those below the middle between it and
the number before. -/
theorem IsNearest.lt_iff {v x : ℚ} (h : IsNearest v x) : x < 2 ^ 64 ↔ v < 2 ^ 64 - 1024 := by
  have hlast : HasDigits (2 ^ 64 - 2 ^ 11) (2 ^ 53 - 1) 11 :=
    ⟨by norm_num, by norm_num, by norm_num, by norm_num, Or.inr (by norm_num)⟩
  have hnext : (2 : ℚ) ^ 64 - 2 ^ 11 + 2 ^ (11 : ℤ) = 2 ^ 64 := by norm_num
  have hword : IsValue (2 ^ 64 - 2 ^ 11 + 2 ^ (11 : ℤ)) :=
    ⟨2 ^ 52, 12, by norm_num, by norm_num, by norm_num, by norm_num⟩
  have hbelow : x < 2 ^ 64 ↔ x ≤ 2 ^ 64 - 2 ^ 11 :=
    ⟨h.value.le_of_lt_word, fun hle => hle.trans_lt (by norm_num)⟩
  rw [hbelow, h.le_iff_of_odd hlast (by decide) hword, hnext]
  constructor <;> intro hlt <;> linarith

/-! ## Rounding a significand -/

section Rounded

variable {v : ℚ} {m : ℕ} {e : ℤ}

theorem abs_sub_mul_zpow (v : ℚ) (e : ℤ) (j : ℕ) :
    |v - j * 2 ^ e| = |v / 2 ^ e - j| * 2 ^ e := by
  have hpos := two_zpow_pos e
  rw [← abs_of_pos hpos, ← abs_mul, sub_mul, abs_of_pos hpos, div_mul_cancel₀ _ hpos.ne']

/-- **The nearest number is a rounded significand**, if the exponent is such that the significand is
full or the exponent the smallest one. -/
theorem isNearest_of_rounded (hlow : -1074 ≤ e) (hhigh : e ≤ 971)
    (hfull : e = -1074 ∨ 2 ^ 52 * 2 ^ e ≤ v) (hv : v < 2 ^ 53 * 2 ^ e)
    (hm : IsRounded (v / 2 ^ e) m) (hfits : e = 971 → m < 2 ^ 53) : IsNearest v (m * 2 ^ e) := by
  have hpos := two_zpow_pos e
  have hle : m ≤ 2 ^ 53 := by
    refine hm.mono (IsRounded.natCast (2 ^ 53)) ?_
    rw [div_le_iff₀ hpos]
    exact_mod_cast hv.le
  -- A significand that is rounded up to the next power of two is written with one place less.
  have hcarry : m = 2 ^ 53 → HasDigits (m * 2 ^ e) (2 ^ 52) (e + 1) := by
    intro h
    refine ⟨?_, by norm_num, by omega, ?_, Or.inr le_rfl⟩
    · rw [h, zpow_add_one₀ two_ne_zero]
      push_cast
      ring
    · by_contra hlarge
      exact absurd (hfits (by omega)) (by omega)
  have hdigits : m < 2 ^ 53 → HasDigits (m * 2 ^ e) m e := by
    intro hlt
    refine ⟨rfl, hlt, hlow, hhigh, hfull.imp_right fun hfull => ?_⟩
    refine (IsRounded.natCast (2 ^ 52)).mono hm ?_
    rw [le_div_iff₀ hpos]
    exact_mod_cast hfull
  -- A number that is no multiple is farther than the smallest full significand.
  have hfar : ∀ y, IsValue y → (∃ j : ℕ, y = j * 2 ^ e) ∨ |v - m * 2 ^ e| < |v - y| := by
    intro y hy
    refine (hy.grid e).imp_right fun ⟨hsmall, hnot⟩ => ?_
    have hge := hfull.resolve_left (by omega)
    have hj := hm.nearest ((2 ^ 52 : ℕ) : ℤ)
    rw [Int.cast_natCast] at hj
    calc |v - m * 2 ^ e| = |v / 2 ^ e - m| * 2 ^ e := abs_sub_mul_zpow v e m
      _ ≤ |v / 2 ^ e - (2 ^ 52 : ℕ)| * 2 ^ e := mul_le_mul_of_nonneg_right hj hpos.le
      _ = |v - (2 ^ 52 : ℕ) * 2 ^ e| := (abs_sub_mul_zpow v e _).symm
      _ = v - 2 ^ 52 * 2 ^ e := by
          push_cast
          exact abs_of_nonneg (by linarith)
      _ < v - y := by linarith
      _ ≤ |v - y| := le_abs_self _
  refine ⟨?_, fun y hy => ?_, fun y hy hne heq => ?_⟩
  · rcases hle.lt_or_eq with hlt | heq
    · exact (hdigits hlt).isValue
    · exact (hcarry heq).isValue
  · obtain ⟨j, rfl⟩ | hlt := hfar y hy
    · rw [abs_sub_mul_zpow, abs_sub_mul_zpow]
      have hj := hm.nearest (j : ℤ)
      rw [Int.cast_natCast] at hj
      exact mul_le_mul_of_nonneg_right hj hpos.le
    · exact hlt.le
  · obtain ⟨j, rfl⟩ | hlt := hfar y hy
    · rw [abs_sub_mul_zpow, abs_sub_mul_zpow, mul_left_inj' hpos.ne'] at heq
      have hjm : (j : ℤ) ≠ m := by
        intro h
        exact hne (by rw [Int.natCast_inj.mp h])
      have heven : Even m := hm.even_of_eq hjm (by rwa [Int.cast_natCast])
      rcases hle.lt_or_eq with hlt | hmax
      · exact ⟨m, e, hdigits hlt, heven⟩
      · exact ⟨2 ^ 52, e + 1, hcarry hmax, by decide⟩
    · exact absurd heq hlt.ne'

/-- A significand that has reached `2 ^ 53` is written with one place less. -/
theorem isValue_mul_zpow (hm : m ≤ 2 ^ 53) (hlow : -1074 ≤ e) (hhigh : e < 971) :
    IsValue (m * 2 ^ e) := by
  rcases hm.lt_or_eq with hlt | rfl
  · exact ⟨m, e, hlt, hlow, hhigh.le, rfl⟩
  · refine ⟨2 ^ 52, e + 1, by norm_num, by omega, by omega, ?_⟩
    rw [zpow_add_one₀ two_ne_zero]
    push_cast
    ring

/-- **The nearest number is off by half a last place** at most. -/
theorem IsNearest.abs_sub_le {x : ℚ} (h : IsNearest v x) (hlow : -1074 ≤ e) (hhigh : e < 971)
    (hv : 0 ≤ v) (hv' : v ≤ 2 ^ 53 * 2 ^ e) : |v - x| ≤ 2 ^ e / 2 := by
  have hpos := two_zpow_pos e
  obtain ⟨m, hm⟩ := exists_isRounded (div_nonneg hv hpos.le)
  have hle : m ≤ 2 ^ 53 := by
    refine hm.mono (IsRounded.natCast _) ?_
    rw [div_le_iff₀ hpos]
    exact_mod_cast hv'
  calc |v - x| ≤ |v - m * 2 ^ e| := h.closest _ (isValue_mul_zpow hle hlow hhigh)
    _ = |v / 2 ^ e - m| * 2 ^ e := abs_sub_mul_zpow v e m
    _ ≤ 1 / 2 * 2 ^ e := mul_le_mul_of_nonneg_right hm.close hpos.le
    _ = 2 ^ e / 2 := by ring

end Rounded

/-! ## Finding the nearest number -/

theorem scaled_spec (num : ℕ) {den : ℕ} (hden : 0 < den) (e : ℤ) :
    0 < (scaled num den e).2 ∧
      ((scaled num den e).1 : ℚ) / (scaled num den e).2 = (num : ℚ) / den / 2 ^ e := by
  cases e with
  | ofNat k =>
      refine ⟨Nat.mul_pos hden (Nat.pow_pos two_pos), ?_⟩
      have hscaled : scaled num den (.ofNat k) = (num, den * 2 ^ k) := rfl
      rw [hscaled, Int.ofNat_eq_natCast, zpow_natCast, div_div]
      push_cast
      rfl
  | negSucc k =>
      refine ⟨hden, ?_⟩
      have hscaled : scaled num den (.negSucc k) = (num * 2 ^ (k + 1), den) := rfl
      rw [hscaled, zpow_negSucc, div_inv_eq_mul]
      push_cast
      ring

/-- **The binary order of a ratio.** -/
theorem binaryOrder_bounds {num den : ℕ} (hnum : 0 < num) (hden : 0 < den) :
    (2 : ℚ) ^ binaryOrder num den ≤ (num : ℚ) / den ∧
      (num : ℚ) / den < 2 ^ (binaryOrder num den + 1) := by
  have hpos : (0 : ℚ) < den := by exact_mod_cast hden
  have hnum₁ : (2 : ℚ) ^ num.log2 ≤ num := by exact_mod_cast Nat.log2_self_le hnum.ne'
  have hnum₂ : (num : ℚ) < 2 ^ (num.log2 + 1) := by exact_mod_cast Nat.lt_log2_self
  have hden₁ : (2 : ℚ) ^ den.log2 ≤ den := by exact_mod_cast Nat.log2_self_le hden.ne'
  have hden₂ : (den : ℚ) < 2 ^ (den.log2 + 1) := by exact_mod_cast Nat.lt_log2_self
  set guess : ℤ := (num.log2 : ℤ) - den.log2 with hguess
  -- The guess is right, or one too great.
  have hlow : (2 : ℚ) ^ (guess - 1) ≤ num / den := by
    rw [le_div_iff₀ hpos]
    calc (2 : ℚ) ^ (guess - 1) * den ≤ 2 ^ (guess - 1) * 2 ^ (den.log2 + 1) := by gcongr
      _ = 2 ^ num.log2 := by
          rw [← zpow_natCast, ← zpow_natCast, ← zpow_add₀ two_ne_zero]
          congr 1
          push_cast
          omega
      _ ≤ num := hnum₁
  have hhigh : (num : ℚ) / den < 2 ^ (guess + 1) := by
    rw [div_lt_iff₀ hpos]
    calc (num : ℚ) < 2 ^ (num.log2 + 1) := hnum₂
      _ = 2 ^ (guess + 1) * 2 ^ den.log2 := by
          rw [← zpow_natCast, ← zpow_natCast, ← zpow_add₀ two_ne_zero]
          congr 1
          push_cast
          omega
      _ ≤ 2 ^ (guess + 1) * den := by gcongr
  obtain ⟨hscaled, hratio⟩ := scaled_spec num hden guess
  have horder : binaryOrder num den =
      if (scaled num den guess).1 < (scaled num den guess).2 then guess - 1 else guess := rfl
  have hless : (scaled num den guess).1 < (scaled num den guess).2 ↔
      (num : ℚ) / den < 2 ^ guess := by
    have hscaled' : (0 : ℚ) < (scaled num den guess).2 := by exact_mod_cast hscaled
    rw [← div_lt_one (two_zpow_pos guess), ← hratio, div_lt_one hscaled']
    exact Nat.cast_lt.symm
  rw [horder]
  split_ifs with h
  · exact ⟨hlow, by simpa using hless.mp h⟩
  · exact ⟨not_lt.mp (mt hless.mpr h), hhigh⟩

/-- **`nearest` finds the nearest number of the format**, unless the ratio is beyond all of them. -/
theorem nearest_cases (negative : Bool) (num : ℕ) {den : ℕ} (hden : 0 < den) :
    (∃ m e, nearest negative num den = .finite negative m e ∧
        IsNearest ((num : ℚ) / den) (m * 2 ^ e)) ∨
      nearest negative num den = .infinite negative ∧ overflow ≤ (num : ℚ) / den := by
  by_cases hzero : num = 0
  · left
    refine ⟨0, 0, by rw [nearest, if_pos hzero], ?_⟩
    have hv : ((num : ℚ) / den) = 0 := by rw [hzero]; simp
    have hx : (((0 : ℕ) : ℚ) * 2 ^ (0 : ℤ)) = 0 := by norm_num
    rw [hv, hx]
    refine ⟨isValue_zero, fun y _ => by simp, fun y _ hne heq => ?_⟩
    exact absurd (by simpa using heq) hne
  · obtain ⟨hlow, hhigh⟩ := binaryOrder_bounds (Nat.pos_of_ne_zero hzero) hden
    set order := binaryOrder num den with horder
    set e := lastPlace num den with he
    have hplace : e = max (order - 52) (-1074) := rfl
    obtain ⟨hscaled, hratio⟩ := scaled_spec num hden e
    have hrounded := isRounded_roundHalfEven (scaled num den e).1 hscaled
    rw [hratio] at hrounded
    set m := roundHalfEven (scaled num den e).1 (scaled num den e).2 with hm
    have hnearest : nearest negative num den =
        if 971 < e ∨ (e = 971 ∧ 2 ^ 53 ≤ m) then .infinite negative
        else .finite negative m e := by
      rw [nearest, if_neg hzero]
      rfl
    rw [hnearest]
    -- What it is rounded to is a value, unless it goes beyond the greatest significand or exponent.
    split_ifs with hlarge
    · right
      refine ⟨rfl, ?_⟩
      rcases hlarge with hplaces | ⟨hlast, hcarry⟩
      · calc overflow ≤ 2 ^ 1024 := sub_le_self _ (by positivity)
          _ = 2 ^ (1024 : ℤ) := (zpow_natCast _ _).symm
          _ ≤ 2 ^ order := zpow_le_zpow_right₀ one_le_two (by omega)
          _ ≤ num / den := hlow
      · -- At the last exponent a significand that is too great comes from half a unit less.
        have hcarry' : (2 : ℚ) ^ 53 ≤ m := by exact_mod_cast hcarry
        have hclose := hrounded.bounds.1
        rw [hlast, le_div_iff₀ (two_zpow_pos 971)] at hclose
        refine le_trans ?_ hclose
        calc overflow = (2 ^ 53 - 1 / 2) * 2 ^ (971 : ℤ) := overflow_eq
          _ ≤ (m - 1 / 2) * 2 ^ (971 : ℤ) := by gcongr
    · left
      refine ⟨m, e, rfl, isNearest_of_rounded (by omega) (by omega) ?_ ?_ hrounded (by omega)⟩
      · by_cases hsmall : e = -1074
        · exact Or.inl hsmall
        · right
          refine le_trans (le_of_eq ?_) hlow
          rw [← zpow_natCast, ← zpow_add₀ two_ne_zero]
          congr 1
          push_cast
          omega
      · refine lt_of_lt_of_le hhigh ?_
        rw [← zpow_natCast, ← zpow_add₀ two_ne_zero]
        exact zpow_le_zpow_right₀ one_le_two (by push_cast; omega)

end Binary64

end Conformance
