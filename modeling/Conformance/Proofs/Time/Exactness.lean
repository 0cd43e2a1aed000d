import Mathlib
import Conformance.Proofs.Time.Timeout
import Conformance.Settings

set_option autoImplicit false

/-! # Timeouts to the nanosecond

How far off a timeout is after the two roundings, at both ends of its range. Below `2 ^ 23` seconds
the first rounding moves a number by less than half a nanosecond, so that the second one brings a
whole number of nanoseconds back (`parseTimeout_exact`). Near zero the second rounding has a middle of
its own: whatever is not above about half a nanosecond is accepted as positive and becomes no time at
all, which the settings refuse (`accepted_timeout_positive_iff`).
-/

namespace Conformance

open Binary64

/-! ## Whole nanoseconds -/

/-- **A decimal with nine places at most** is a whole number of nanoseconds. -/
theorem WrittenDecimal.exists_nanos (n : WrittenDecimal) (hexponent : n.exponent = none)
    (hplaces : (n.fraction.getD []).length ≤ 9) (hpos : 0 < n.value) :
    ∃ k : ℕ, n.value = k / 10 ^ 9 := by
  have hsign : Sign.factor n.sign = 1 := by
    cases hminus : Sign.isMinus n.sign with
    | false => simp [Sign.factor, hminus]
    | true => exact absurd hpos (not_lt.mpr (n.nonpos_of_minus hminus))
  have hunits := WrittenDecimal.value_mul_ten_pow hsign hexponent hplaces
  exact ⟨_, (eq_div_iff (by norm_num)).mpr hunits⟩

/-- **Both roundings together keep whole nanoseconds** below `2 ^ 23` seconds. The last place of the
number in between is `2 ^ -30` or a smaller power, and half of that is less than half a nanosecond. -/
theorem RoundsTo.toNanos_eq {k : ℕ} {d : Duration} (h : RoundsTo (k / 10 ^ 9) d)
    (hlt : (k : ℚ) / 10 ^ 9 < 2 ^ 23) : d.toNanos = k := by
  obtain ⟨x, hx, hd⟩ := h
  have hplace : (2 : ℚ) ^ (-30 : ℤ) = 1 / 2 ^ 30 := by norm_num
  have hoff : |(k : ℚ) / 10 ^ 9 - x| ≤ 2 ^ (-30 : ℤ) / 2 := by
    refine hx.abs_sub_le (by norm_num) (by norm_num) (by positivity) ?_
    rw [hplace]
    linarith
  refine hd.eq_of_abs_sub_lt ?_
  have hunit : ((nanosPerSecond : ℕ) : ℚ) = 10 ^ 9 := by norm_num
  rw [hunit]
  calc |x * 10 ^ 9 - k| = |(k : ℚ) / 10 ^ 9 - x| * 10 ^ 9 := by
        rw [abs_sub_comm, ← abs_of_pos (show (0 : ℚ) < 10 ^ 9 by norm_num), ← abs_mul, sub_mul,
          abs_of_pos (show (0 : ℚ) < 10 ^ 9 by norm_num), div_mul_cancel₀ _ (by norm_num)]
    _ ≤ 2 ^ (-30 : ℤ) / 2 * 10 ^ 9 := by gcongr
    _ < 1 / 2 := by rw [hplace]; norm_num

/-- **A decimal without exponent, with nine places at most and below `2 ^ 23` seconds, is a timeout of
exactly that length.** -/
theorem parseTimeout_exact (n : WrittenDecimal) (hexponent : n.exponent = none)
    (hplaces : (n.fraction.getD []).length ≤ 9) (hpos : 0 < n.value) (hlt : n.value < 2 ^ 23) :
    ∃ d, parseTimeout n.text = .ok d ∧
      (d.seconds.toNat : ℚ) + (d.nanos : ℕ) / 10 ^ 9 = n.value := by
  obtain ⟨k, hk⟩ := n.exists_nanos hexponent hplaces hpos
  have hrange : InRange n.value := by
    refine ⟨?_, hlt.trans (by norm_num)⟩
    -- What is positive is a nanosecond at least.
    have hone : (1 : ℚ) ≤ k := by
      rw [hk] at hpos
      have hkpos : (0 : ℚ) < k := by simpa using hpos
      exact_mod_cast hkpos
    calc (2 : ℚ) ^ (-1075 : ℤ) < 2 ^ (-30 : ℤ) := zpow_lt_zpow_right₀ one_lt_two (by norm_num)
      _ ≤ 1 / 10 ^ 9 := by norm_num
      _ ≤ k / 10 ^ 9 := by gcongr
      _ = n.value := hk.symm
  obtain ⟨-, d, hd, hrounds⟩ | ⟨hnot, -⟩ := parseTimeout_cases n
  · refine ⟨d, hd, ?_⟩
    rw [hk] at hrounds hlt
    have hnanos : d.seconds.toNat * nanosPerSecond + d.nanos = k := hrounds.toNanos_eq hlt
    rw [hk, ← hnanos]
    push_cast
    ring
  · exact absurd hrange hnot

/-- A timeout just below the bound, with leading zeros. -/
theorem parseTimeout_exact_just_below :
    ∃ d, parseTimeout "008388607.999999999" = .ok d ∧
      (d.seconds.toNat : ℚ) + (d.nanos : ℕ) / 10 ^ 9 = 8388607999999999 / 10 ^ 9 := by
  let n : WrittenDecimal :=
    ⟨none, [0, 0, 8, 3, 8, 8, 6, 0, 7], some [9, 9, 9, 9, 9, 9, 9, 9, 9], none, by decide⟩
  have hn : n.value = 8388607999999999 / 10 ^ 9 := by
    have hdigits : n.digits.value = 8388607999999999 := by decide
    have hplace : n.lastPlace = -9 := by decide
    have hsign : Sign.factor n.sign = 1 := by decide
    rw [WrittenDecimal.value, hdigits, hplace, hsign]
    norm_num
  have hexact := parseTimeout_exact n rfl (by decide) (by rw [hn]; norm_num) (by rw [hn]; norm_num)
  rw [hn] at hexact
  exact hexact

/-- From the bound on, a number can be a nanosecond off. -/
example : parseTimeout "8388608.000000001" = .ok ⟨8388608, 2⟩ := by decide +kernel

/-! ## No time at all -/

/-- **Settings are refused for their timeout** if and only if it is no time. -/
theorem Settings.validate_withTimeout_iff (s : Settings) (d : Duration) :
    (s.withTimeout d).validate = .error .zeroTimeout ↔ d.toNanos = 0 := by
  rw [Duration.toNanos_eq_zero_iff]
  have htimeout : (s.withTimeout d).timeout = d := rfl
  rw [Settings.validate, htimeout, Duration.isZero]
  by_cases hd : d = .zero
  · simp [hd]
  · by_cases hextension : (s.withTimeout d).extension = "" <;> simp [hd, hextension]

/-- **The numbers of seconds that are rounded to no time.** Half a nanosecond lies between two
neighbours of the format, of which the smaller one is even; its middle to the next one is the
bound. -/
theorem RoundsTo.toNanos_eq_zero_iff {v : ℚ} {d : Duration} (h : RoundsTo v d) :
    d.toNanos = 0 ↔ v ≤ 9671406556917033 / 2 ^ 84 := by
  obtain ⟨x, hx, hd⟩ := h
  have hplace : (2 : ℚ) ^ (-83 : ℤ) = 1 / 2 ^ 83 := by norm_num
  have hdigits : HasDigits (4835703278458516 / 2 ^ 83) 4835703278458516 (-83) :=
    ⟨by rw [hplace]; norm_num, by norm_num, by norm_num, by norm_num, Or.inr (by norm_num)⟩
  have hunit : ((nanosPerSecond : ℕ) : ℚ) = 10 ^ 9 := by norm_num
  have hhalf : x * 10 ^ 9 ≤ 1 / 2 ↔ x ≤ 4835703278458516 / 2 ^ 83 := by
    constructor
    · intro hle
      refine not_lt.mp fun hlt => ?_
      have hgap := hdigits.add_le hx.value hlt
      rw [hplace] at hgap
      norm_num at hgap hle
      linarith
    · intro hle
      norm_num at hle ⊢
      linarith
  rw [hd.eq_zero_iff, hunit, hhalf, hx.le_iff_of_even hdigits (by decide), hplace]
  constructor <;> intro hle <;> norm_num at hle ⊢ <;> linarith

theorem exists_decimal_of_parseTimeout {text : String} {d : Duration}
    (h : parseTimeout text = .ok d) :
    ∃ n : WrittenDecimal, text = n.text ∧ InRange n.value ∧ RoundsTo n.value d := by
  by_cases hdecimal : ∀ n : WrittenDecimal, text ≠ n.text
  · obtain ⟨e, he⟩ := parseTimeout_error_of_forall_ne hdecimal
    rw [h] at he
    cases he
  · obtain ⟨n, rfl⟩ := not_forall_not.mp hdecimal
    obtain ⟨hrange, d', hd', hrounds⟩ | ⟨-, e, he⟩ := parseTimeout_cases n
    · rw [h] at hd'
      cases hd'
      exact ⟨n, rfl, hrange, hrounds⟩
    · rw [h] at he
      cases he

/-- **An accepted timeout is positive, and not refused later on, unless it is a decimal up to about
half a nanosecond.** Smaller decimals that do not round to zero as seconds are accepted too; in
nanoseconds they are nothing. -/
theorem accepted_timeout_positive_iff (s : Settings) (text : String) :
    (∀ d, parseTimeout text = .ok d →
      0 < d.toNanos ∧ (s.withTimeout d).validate ≠ .error .zeroTimeout) ↔
    ∀ n : WrittenDecimal, text = n.text →
      ¬ (2 ^ (-1075 : ℤ) < n.value ∧ n.value ≤ 9671406556917033 / 2 ^ 84) := by
  constructor
  · rintro hpositive n rfl ⟨hlow, hhigh⟩
    obtain ⟨-, d, hd, hrounds⟩ | ⟨hnot, -⟩ := parseTimeout_cases n
    · have hzero := hrounds.toNanos_eq_zero_iff.mpr hhigh
      exact absurd (hpositive d hd).1 (by omega)
    · exact hnot ⟨hlow, hhigh.trans_lt (by norm_num)⟩
  · intro hnone d hd
    obtain ⟨n, htext, hrange, hrounds⟩ := exists_decimal_of_parseTimeout hd
    have hpos : d.toNanos ≠ 0 := fun hzero =>
      hnone n htext ⟨hrange.1, hrounds.toNanos_eq_zero_iff.mp hzero⟩
    exact ⟨Nat.pos_of_ne_zero hpos, mt (s.validate_withTimeout_iff d).mp hpos⟩

/-- **A tenth of a nanosecond is accepted as positive and refused as zero.** -/
theorem tenth_of_nanosecond_accepted :
    parseTimeout "1e-10" = .ok .zero ∧
      ∀ s : Settings, (s.withTimeout .zero).validate = .error .zeroTimeout := by
  refine ⟨by decide +kernel, fun s => ?_⟩
  exact (s.validate_withTimeout_iff .zero).mpr (by decide)

end Conformance
