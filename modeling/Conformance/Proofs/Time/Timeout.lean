import Mathlib
import Conformance.Proofs.Time.Binary64
import Conformance.Proofs.Time.Decimal
import Conformance.Proofs.Time.Rounding
import Conformance.Time.Timeout

set_option autoImplicit false

/-! # Which timeouts are accepted, and how long they are

A decimal is rounded twice before it is a duration: to the nearest number of the 64-bit format, and from
there to the nearest nanosecond. Neither rounding brings a number out of range that the other leaves in
it, so the decimals that are accepted are those between two bounds (`parseTimeout_cases`), and both
roundings together are monotone.
-/

namespace Conformance

/-! ## Durations -/

namespace Duration

/-- **A duration is found for its own length**, and for no other one. -/
theorem ofNanos?_eq_some_iff {n : ℕ} {d : Duration} : ofNanos? n = some d ↔ d.toNanos = n := by
  constructor
  · intro h
    rw [ofNanos?] at h
    split at h
    · next hlt =>
        cases h
        show (n / nanosPerSecond) % UInt64.size * nanosPerSecond + n % nanosPerSecond = n
        rw [Nat.mod_eq_of_lt hlt, Nat.div_add_mod']
    · cases h
  · rintro rfl
    have hparts : d.nanos + nanosPerSecond * d.seconds.toNat = d.toNanos := by
      rw [toNanos, add_comm, mul_comm]
    obtain ⟨hseconds, hnanos⟩ :=
      (Nat.div_mod_unique (by decide)).mpr ⟨hparts, d.nanos.isLt⟩
    have hlt : d.toNanos / nanosPerSecond < UInt64.size := by
      rw [hseconds]
      exact d.seconds.toNat_lt
    rw [ofNanos?, if_pos hlt]
    have hword : (d.toNanos / nanosPerSecond).toUInt64 = d.seconds := by
      rw [hseconds]
      exact UInt64.ofNat_toNat
    exact congrArg some (Duration.mk.injEq .. |>.mpr ⟨hword, Fin.ext hnanos⟩)

theorem exists_ofNanos?_iff {n : ℕ} :
    (∃ d, ofNanos? n = some d) ↔ n < 2 ^ 64 * nanosPerSecond := by
  have hlt_iff : n / nanosPerSecond < UInt64.size ↔ n < 2 ^ 64 * nanosPerSecond :=
    Nat.div_lt_iff_lt_mul (by decide)
  rw [ofNanos?, ← hlt_iff]
  constructor
  · rintro ⟨d, hd⟩
    by_contra hge
    rw [if_neg hge] at hd
    cases hd
  · intro hlt
    rw [if_pos hlt]
    exact ⟨_, rfl⟩

theorem toNanos_injective : Function.Injective toNanos := by
  intro d d' h
  have hd := ofNanos?_eq_some_iff.mpr h
  rw [ofNanos?_eq_some_iff.mpr rfl] at hd
  exact (Option.some.inj hd).symm

theorem toNanos_eq_zero_iff {d : Duration} : d.toNanos = 0 ↔ d = zero :=
  (toNanos_injective.eq_iff : d.toNanos = zero.toNanos ↔ d = zero)

theorem toNanos_le_iff {d d' : Duration} :
    d.toNanos ≤ d'.toNanos ↔
      d.seconds < d'.seconds ∨ d.seconds = d'.seconds ∧ d.nanos ≤ d'.nanos := by
  have h : (d.nanos : ℕ) < 1000000000 := d.nanos.isLt
  have h' : (d'.nanos : ℕ) < 1000000000 := d'.nanos.isLt
  rw [UInt64.lt_iff_toNat_lt, ← UInt64.toNat_inj, Fin.le_def]
  show d.seconds.toNat * 1000000000 + (d.nanos : ℕ) ≤
      d'.seconds.toNat * 1000000000 + (d'.nanos : ℕ) ↔ _
  omega

end Duration

namespace Binary64

/-- **The nanoseconds of a number of seconds are rounded once.** -/
theorem isRounded_nanosOfSeconds (m : ℕ) (e : ℤ) :
    IsRounded (m * 2 ^ e * nanosPerSecond) (nanosOfSeconds m e) := by
  cases e with
  | ofNat k =>
      have hexact : nanosOfSeconds m (.ofNat k) = m * 2 ^ k * nanosPerSecond := rfl
      have hvalue : (m : ℚ) * 2 ^ (Int.ofNat k) * nanosPerSecond =
          ((m * 2 ^ k * nanosPerSecond : ℕ) : ℚ) := by
        rw [Int.ofNat_eq_natCast, zpow_natCast]
        push_cast
        rfl
      rw [hexact, hvalue]
      exact IsRounded.natCast _
  | negSucc k =>
      have hrounded : nanosOfSeconds m (.negSucc k) =
          roundHalfEven (m * nanosPerSecond) (2 ^ (k + 1)) := rfl
      have hvalue : (m : ℚ) * 2 ^ (Int.negSucc k) * nanosPerSecond =
          ((m * nanosPerSecond : ℕ) : ℚ) / ((2 ^ (k + 1) : ℕ) : ℚ) := by
        rw [zpow_negSucc]
        push_cast
        ring
      rw [hrounded, hvalue]
      exact isRounded_roundHalfEven _ (Nat.pow_pos two_pos)

/-- **Rounding to nanoseconds neither brings the seconds into a word nor out of it.** Below the bound a
number of the format is so far from it that no carry reaches it. -/
theorem lt_word_iff {x : ℚ} {n : ℕ} (hx : IsValue x) (hn : IsRounded (x * nanosPerSecond) n) :
    n < 2 ^ 64 * nanosPerSecond ↔ x < 2 ^ 64 := by
  constructor
  · intro hlt
    by_contra hge
    rw [not_lt] at hge
    have hle : ((2 ^ 64 * nanosPerSecond : ℕ) : ℚ) ≤ x * nanosPerSecond := by
      rw [Nat.cast_mul, Nat.cast_pow, Nat.cast_two]
      exact mul_le_mul_of_nonneg_right hge (Nat.cast_nonneg _)
    exact absurd ((IsRounded.natCast _).mono hn hle) (not_le.mpr hlt)
  · intro hlt
    have hle : x * nanosPerSecond ≤ (((2 ^ 64 - 2 ^ 11) * nanosPerSecond : ℕ) : ℚ) := by
      push_cast
      have := hx.le_of_lt_word hlt
      gcongr
      linarith
    calc n ≤ (2 ^ 64 - 2 ^ 11) * nanosPerSecond := hn.mono (IsRounded.natCast _) hle
      _ < 2 ^ 64 * nanosPerSecond := by norm_num

/-- **A number of the format has a duration if and only if it is less than a word of seconds.** -/
theorem exists_ofSeconds?_iff {v : ℚ} {m : ℕ} {e : ℤ} (h : IsNearest v (m * 2 ^ e)) :
    (∃ d, Duration.ofSeconds? m e = some d) ↔ (m : ℚ) * 2 ^ e < 2 ^ 64 :=
  Duration.exists_ofNanos?_iff.trans (lt_word_iff h.value (isRounded_nanosOfSeconds m e))

/-! ## The nearest number to a decimal -/

theorem isNearest_zero {v : ℚ} (hv : 0 ≤ v) (hsmall : v < 2 ^ (-1075 : ℤ)) : IsNearest v 0 := by
  have hhalf : (2 : ℚ) ^ (-1074 : ℤ) = 2 * 2 ^ (-1075 : ℤ) := by
    rw [← zpow_one_add₀ two_ne_zero]
    norm_num
  have hdigits : HasDigits 0 0 (-1074) :=
    ⟨by norm_num, by norm_num, le_rfl, by norm_num, Or.inl rfl⟩
  -- A positive number is at least the smallest one, which is farther away.
  have hfar : ∀ y, IsValue y → y ≠ 0 → |v - 0| < |v - y| := by
    intro y hy hne
    have hge := hdigits.add_le hy (lt_of_le_of_ne hy.nonneg hne.symm)
    rw [sub_zero, abs_of_nonneg hv, abs_sub_comm, abs_of_nonneg (by linarith)]
    linarith
  refine ⟨isValue_zero, fun y hy => ?_, fun y hy hne heq => absurd heq (hfar y hy hne).ne'⟩
  by_cases hy0 : y = 0
  · rw [hy0]
  · exact (hfar y hy hy0).le

/-- The number of digits says how great a number is. -/
theorem length_toDigits_bounds {c : ℕ} (hc : c ≠ 0) :
    10 ^ (Nat.toDigits 10 c).length ≤ 10 * c ∧ c < 10 ^ ((Nat.toDigits 10 c).length + 1) := by
  constructor
  · rcases hlength : (Nat.toDigits 10 c).length with _ | _ | k
    · omega
    · omega
    · have hmore : ¬ (Nat.toDigits 10 c).length ≤ k + 1 := by omega
      rw [Nat.length_toDigits_le_iff (by decide) (by omega), not_lt] at hmore
      calc 10 ^ (k + 1 + 1) = 10 * 10 ^ (k + 1) := Nat.pow_succ'
        _ ≤ 10 * c := Nat.mul_le_mul_left 10 hmore
  · exact (Nat.length_toDigits_le_iff (by decide) (Nat.succ_pos _)).mp (Nat.le_succ _)

/-- What is called infinite without computation is great enough. -/
theorem overflow_le_ten_zpow : overflow ≤ 10 ^ (310 : ℤ) := by
  calc overflow ≤ 2 ^ 1024 := sub_le_self _ (by positivity)
    _ = (2 ^ 33) ^ 31 * 2 := by rw [← pow_mul, ← pow_succ]
    _ ≤ (9 * 10 ^ 9) ^ 31 * 2 := by gcongr; norm_num
    _ = (9 ^ 31 * 2) * (10 ^ 9) ^ 31 := by rw [mul_pow]; ring
    _ ≤ 10 ^ 31 * (10 ^ 9) ^ 31 := by gcongr; norm_num
    _ = 10 ^ (310 : ℤ) := by rw [← pow_mul, ← pow_add, ← zpow_natCast]; rfl

/-- What is called zero without computation is small enough. -/
theorem ten_zpow_lt_two_zpow : (10 : ℚ) ^ (-326 : ℤ) < 2 ^ (-1075 : ℤ) := by
  have hpow : (2 : ℚ) ^ 1075 < 10 ^ 326 := by
    calc (2 : ℚ) ^ 1075 = (2 ^ 33) ^ 32 * 2 ^ 19 := by rw [← pow_mul, ← pow_add]
      _ < (10 ^ 10) ^ 32 * 10 ^ 6 := by gcongr <;> norm_num
      _ = 10 ^ 326 := by rw [← pow_mul, ← pow_add]
  rw [zpow_neg, zpow_neg]
  exact inv_strictAnti₀ (zpow_pos two_pos _) (by exact_mod_cast hpow)

theorem ofNumeral_decimal (negative : Bool) (c : ℕ) (k : ℤ) :
    ofNumeral (.decimal negative c k) =
      if c = 0 then .finite negative 0 0
      else if 310 < ((Nat.toDigits 10 c).length : ℤ) + k then .infinite negative
      else if ((Nat.toDigits 10 c).length : ℤ) + k < -326 then .finite negative 0 0
      else match k with
        | .ofNat k => nearest negative (c * 10 ^ k) 1
        | .negSucc k => nearest negative c (10 ^ (k + 1)) := by
  cases k <;> rfl

/-- **A decimal is read as the number of the format that is nearest to it**, unless it is beyond all of
them. Decimals far out of range need no computation. -/
theorem ofNumeral_decimal_cases (negative : Bool) (c : ℕ) (k : ℤ) :
    (∃ m e, ofNumeral (.decimal negative c k) = .finite negative m e ∧
        IsNearest (c * 10 ^ k) (m * 2 ^ e)) ∨
      ofNumeral (.decimal negative c k) = .infinite negative ∧ overflow ≤ c * 10 ^ k := by
  have hzero : ((0 : ℕ) : ℚ) * 2 ^ (0 : ℤ) = 0 := by norm_num
  by_cases hc : c = 0
  · left
    refine ⟨0, 0, by rw [ofNumeral_decimal, if_pos hc], ?_⟩
    rw [hzero, hc, Nat.cast_zero, zero_mul]
    exact isNearest_zero le_rfl (two_zpow_pos _)
  obtain ⟨hlow, hhigh⟩ := length_toDigits_bounds hc
  set places := (Nat.toDigits 10 c).length with hplaces
  have hlow' : (10 : ℚ) ^ (places : ℤ) ≤ 10 * c := by exact_mod_cast hlow
  have hhigh' : (c : ℚ) < 10 ^ ((places : ℤ) + 1) := by exact_mod_cast hhigh
  have hten : (0 : ℚ) < 10 ^ k := zpow_pos (by norm_num) k
  rw [ofNumeral_decimal, if_neg hc, ← hplaces]
  -- Numerals too great or too small are not calculated with; of these only the order is looked at.
  split_ifs with hlarge hsmall
  · right
    refine ⟨rfl, ?_⟩
    calc overflow ≤ 10 ^ (310 : ℤ) := overflow_le_ten_zpow
      _ ≤ 10 ^ ((places : ℤ) + k - 1) := zpow_le_zpow_right₀ (by norm_num) (by omega)
      _ = 10 ^ (places : ℤ) * 10 ^ k / 10 := by
          rw [zpow_sub_one₀ (by norm_num), zpow_add₀ (by norm_num), div_eq_mul_inv]
      _ ≤ 10 * c * 10 ^ k / 10 := by gcongr
      _ = c * 10 ^ k := by ring
  · left
    refine ⟨0, 0, rfl, ?_⟩
    rw [hzero]
    refine isNearest_zero (by positivity) ?_
    calc (c : ℚ) * 10 ^ k < 10 ^ ((places : ℤ) + 1) * 10 ^ k := by gcongr
      _ = 10 ^ ((places : ℤ) + 1 + k) := (zpow_add₀ (by norm_num) _ _).symm
      _ ≤ 10 ^ (-326 : ℤ) := zpow_le_zpow_right₀ (by norm_num) (by omega)
      _ < 2 ^ (-1075 : ℤ) := ten_zpow_lt_two_zpow
  · cases k with
    | ofNat k =>
        have hvalue : (c : ℚ) * 10 ^ (Int.ofNat k) = ((c * 10 ^ k : ℕ) : ℚ) / (1 : ℕ) := by
          rw [Int.ofNat_eq_natCast, zpow_natCast]
          push_cast
          rw [div_one]
        rw [hvalue]
        exact nearest_cases negative (c * 10 ^ k) one_pos
    | negSucc k =>
        have hvalue : (c : ℚ) * 10 ^ (Int.negSucc k) = (c : ℚ) / ((10 ^ (k + 1) : ℕ) : ℚ) := by
          rw [zpow_negSucc]
          push_cast
          rw [div_eq_mul_inv]
        rw [hvalue]
        exact nearest_cases negative c (Nat.pow_pos (by decide))

end Binary64

open Binary64

/-! ## Timeouts -/

/-- **A decimal is in range** if it neither rounds to zero nor to more seconds than a word holds. -/
def InRange (v : ℚ) : Prop := 2 ^ (-1075 : ℤ) < v ∧ v < 2 ^ 64 - 1024

/-- **A duration is the rounding of a number of seconds**: to the format first, and to nanoseconds from
there, with ties to even both times. -/
def RoundsTo (v : ℚ) (d : Duration) : Prop :=
  ∃ x, IsNearest v x ∧ IsRounded (x * nanosPerSecond) d.toNanos

theorem RoundsTo.mono {v v' : ℚ} {d d' : Duration} (h : RoundsTo v d) (h' : RoundsTo v' d')
    (hle : v ≤ v') : d.toNanos ≤ d'.toNanos := by
  obtain ⟨x, hx, hd⟩ := h
  obtain ⟨x', hx', hd'⟩ := h'
  have hxx : x ≤ x' := hx.mono hx' hle
  exact hd.mono hd' (by gcongr)

/-- **A positive number of the format has a duration if and only if the decimal that it is nearest to is
in range.** -/
theorem ofSeconds?_cases {v : ℚ} {m : ℕ} {e : ℤ} (hnearest : IsNearest v (m * 2 ^ e)) (hm : m ≠ 0) :
    (InRange v ∧ ∃ d, Duration.ofSeconds? m e = some d ∧ RoundsTo v d) ∨
      (¬ InRange v ∧ Duration.ofSeconds? m e = none) := by
  have hpos : 0 < (m : ℚ) * 2 ^ e :=
    mul_pos (by exact_mod_cast Nat.pos_of_ne_zero hm) (two_zpow_pos e)
  have hrounded := isRounded_nanosOfSeconds m e
  have hword : (∃ d, Duration.ofSeconds? m e = some d) ↔ v < 2 ^ 64 - 1024 :=
    (exists_ofSeconds?_iff hnearest).trans hnearest.lt_iff
  cases hd : Duration.ofSeconds? m e with
  | some d =>
      left
      refine ⟨⟨hnearest.pos_iff.mp hpos, hword.mp ⟨d, hd⟩⟩, d, rfl, _, hnearest, ?_⟩
      rw [Duration.ofNanos?_eq_some_iff.mp hd]
      exact hrounded
  | none =>
      right
      refine ⟨fun hrange => ?_, rfl⟩
      obtain ⟨d, hd'⟩ := hword.mpr hrange.2
      rw [hd] at hd'
      cases hd'

theorem parseTimeout_eq {text : String} {numeral : Numeral} (h : Numeral.parse? text = some numeral) :
    parseTimeout text =
      match ofNumeral numeral with
      | .finite false m e =>
        if m = 0 then .error (.notPositive text)
        else match Duration.ofSeconds? m e with
          | some d => .ok d
          | none => .error .tooLong
      | _ => .error (.notPositive text) := by
  unfold parseTimeout
  generalize Numeral.parse? text = parsed at h ⊢
  subst h
  rfl

/-- **What becomes of a decimal that is given as a timeout.** -/
theorem parseTimeout_cases (n : WrittenDecimal) :
    (InRange n.value ∧ ∃ d, parseTimeout n.text = .ok d ∧ RoundsTo n.value d) ∨
      (¬ InRange n.value ∧ ∃ e, parseTimeout n.text = .error e) := by
  have hread := parseTimeout_eq (Numeral.parse?_text n)
  cases hsign : Sign.isMinus n.sign with
  | true =>
      -- No decimal with a minus is positive.
      right
      refine ⟨fun hrange => ?_, .notPositive n.text, ?_⟩
      · have hpos := (two_zpow_pos (-1075)).trans hrange.1
        exact absurd hpos (not_lt.mpr (n.nonpos_of_minus hsign))
      · rw [hread, hsign]
        obtain ⟨m, e, hfinite, -⟩ | ⟨hinfinite, -⟩ :=
          ofNumeral_decimal_cases true n.digits.value n.lastPlace
        · rw [hfinite]
        · rw [hinfinite]
  | false =>
      have hvalue := n.value_of_plus hsign
      rw [hread, hsign]
      obtain ⟨m, e, hfinite, hnearest⟩ | ⟨hinfinite, hlarge⟩ :=
        ofNumeral_decimal_cases false n.digits.value n.lastPlace
      · rw [← hvalue] at hnearest
        rw [hfinite]
        simp only
        by_cases hm : m = 0
        · right
          rw [if_pos hm]
          refine ⟨fun hrange => ?_, _, rfl⟩
          have hpos := hnearest.pos_iff.mpr hrange.1
          rw [hm, Nat.cast_zero, zero_mul] at hpos
          exact lt_irrefl _ hpos
        · rw [if_neg hm]
          obtain ⟨hrange, d, hd, hrounds⟩ | ⟨hnot, hd⟩ := ofSeconds?_cases hnearest hm
          · exact Or.inl ⟨hrange, d, by rw [hd], hrounds⟩
          · exact Or.inr ⟨hnot, .tooLong, by rw [hd]⟩
      · right
        rw [hinfinite]
        refine ⟨fun hrange => ?_, _, rfl⟩
        have hsmall : n.value < 2 ^ 64 := hrange.2.trans (by norm_num)
        rw [hvalue] at hsmall
        exact absurd (word_lt_overflow.le.trans hlarge) (not_le.mpr hsmall)

/-- What is no decimal is no timeout: it is no numeral at all, or no number, or infinite. -/
theorem parseTimeout_error_of_forall_ne {text : String} (h : ∀ n : WrittenDecimal, text ≠ n.text) :
    ∃ e, parseTimeout text = .error e := by
  cases hparse : Numeral.parse? text with
  | none => exact ⟨.notANumber text, by rw [parseTimeout, hparse]⟩
  | some numeral =>
      refine ⟨.notPositive text, ?_⟩
      rw [parseTimeout_eq hparse]
      cases numeral with
      | nan => rfl
      | infinity negative => rfl
      | decimal negative c k =>
          obtain ⟨n, hn⟩ := Numeral.exists_text_of_parse? hparse
          exact absurd hn (h n)

/-- **A timeout is accepted if and only if it is a decimal in range.** It is then rounded to the nearest
number of the 64-bit format and from there to the nearest nanosecond, and a greater decimal gives no
shorter time. -/
theorem parseTimeout_correct :
    (∀ n : WrittenDecimal, (∃ d, parseTimeout n.text = .ok d) ↔
      2 ^ (-1075 : ℤ) < n.value ∧ n.value < 2 ^ 64 - 1024) ∧
    (∀ text, (∀ n : WrittenDecimal, text ≠ n.text) → ∃ e, parseTimeout text = .error e) ∧
    (∀ (n : WrittenDecimal) (d : Duration), parseTimeout n.text = .ok d →
      d.seconds.toNat < 2 ^ 64 ∧ (d.nanos : ℕ) < 10 ^ 9 ∧
        ∃ x, IsNearest n.value x ∧
          IsRounded (x * 10 ^ 9) (d.seconds.toNat * 10 ^ 9 + d.nanos)) ∧
    ∀ (n n' : WrittenDecimal) (d d' : Duration), n.value ≤ n'.value →
      parseTimeout n.text = .ok d → parseTimeout n'.text = .ok d' →
        d.seconds < d'.seconds ∨ d.seconds = d'.seconds ∧ d.nanos ≤ d'.nanos := by
  have hrounds : ∀ (n : WrittenDecimal) (d : Duration), parseTimeout n.text = .ok d →
      RoundsTo n.value d := by
    intro n d hd
    obtain ⟨-, d', hd', hrounds⟩ | ⟨-, e, he⟩ := parseTimeout_cases n
    · rw [hd] at hd'
      cases hd'
      exact hrounds
    · rw [hd] at he
      cases he
  refine ⟨fun n => ?_, fun text => parseTimeout_error_of_forall_ne, fun n d hd => ?_, ?_⟩
  · obtain ⟨hrange, d, hd, -⟩ | ⟨hnot, e, he⟩ := parseTimeout_cases n
    · exact ⟨fun _ => hrange, fun _ => ⟨d, hd⟩⟩
    · refine ⟨fun ⟨d, hd⟩ => ?_, fun hrange => absurd hrange hnot⟩
      rw [he] at hd
      cases hd
  · obtain ⟨x, hx, hd⟩ := hrounds n d hd
    refine ⟨d.seconds.toNat_lt, d.nanos.isLt, x, hx, ?_⟩
    have hunit : ((nanosPerSecond : ℕ) : ℚ) = 10 ^ 9 := by norm_num
    rw [← hunit]
    exact hd
  · intro n n' d d' hle hd hd'
    exact Duration.toNanos_le_iff.mp ((hrounds n d hd).mono (hrounds n' d' hd') hle)

/-- One and a half seconds, and a number that is none. -/
theorem parseTimeout_one_and_a_half :
    (∃ d, parseTimeout "1.5" = .ok d) ∧ (∃ e, parseTimeout "inf" = .error e) ∧
      (∃ x, IsNearest (3 / 2) x ∧ IsRounded (x * 10 ^ 9) 1500000000) ∧
      ((1 : UInt64) < 2 ∨ (1 : UInt64) = 2 ∧ (500000000 : Fin nanosPerSecond) ≤ 0) := by
  obtain ⟨haccepted, hrefused, hrounded, hmono⟩ := parseTimeout_correct
  let n : WrittenDecimal := ⟨none, [1], some [5], none, by decide⟩
  let two : WrittenDecimal := ⟨some .plus, [2], none, some ⟨false, none, [0], by decide⟩, by decide⟩
  have hn : n.value = 3 / 2 := by
    have hdigits : n.digits.value = 15 := by decide
    have hplace : n.lastPlace = -1 := by decide
    have hsign : Sign.factor n.sign = 1 := by decide
    rw [WrittenDecimal.value, hdigits, hplace, hsign]
    norm_num
  have htwo : two.value = 2 := by
    have hdigits : two.digits.value = 2 := by decide
    have hplace : two.lastPlace = 0 := by decide
    have hsign : Sign.factor two.sign = 1 := by decide
    rw [WrittenDecimal.value, hdigits, hplace, hsign]
    norm_num
  have hrange : (2 : ℚ) ^ (-1075 : ℤ) < 3 / 2 :=
    (zpow_le_one_of_nonpos₀ one_le_two (by norm_num)).trans_lt (by norm_num)
  have hinf : ∀ n : WrittenDecimal, "inf" ≠ n.text := by
    intro n htext
    have hparse := Numeral.parse?_text n
    rw [← htext] at hparse
    have hword : Numeral.parse? "inf" = some (.infinity false) := by decide
    rw [hword] at hparse
    cases hparse
  have hdone : parseTimeout n.text = .ok ⟨1, 500000000⟩ := by decide +kernel
  have hdone' : parseTimeout two.text = .ok ⟨2, 0⟩ := by decide +kernel
  refine ⟨(haccepted n).mpr ?_, hrefused "inf" hinf, ?_, ?_⟩
  · rw [hn]
    exact ⟨hrange, by norm_num⟩
  · obtain ⟨-, -, x, hx, hd⟩ := hrounded n _ hdone
    rw [hn] at hx
    exact ⟨x, hx, hd⟩
  · exact hmono n two _ _ (by rw [hn, htwo]; norm_num) hdone hdone'

end Conformance
