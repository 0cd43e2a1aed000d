import Mathlib
import Conformance.Directive
import Conformance.Proofs.Time.Timeout

set_option autoImplicit false

/-! # How long a text asks to sleep

`Lasts` says which time a text asks for, without a reader: a decimal asks for the number of the 64-bit
format that is nearest to it, and a word, or a decimal beyond that format, asks for ever. A decimal below
zero asks for no time, unless it is so small that it is rounded to zero. `Directive.sleep?` finds out
whether there is such a time and whether it is less than a word of seconds (`sleep?_of_lasts`,
`exists_lasts_of_sleep?`).
-/

namespace Conformance

open Binary64

namespace Script

/-! ## Times -/

/-- The least number of seconds that does not fit a word. -/
def wordOfSeconds : WithTop ℚ := ((2 ^ 64 : ℚ) : WithTop ℚ)

/-- The words for an infinite time, in any case of letters. -/
def IsForever (word : List Char) : Prop :=
  word.map Numeral.lowerCase = "inf".toList ∨ word.map Numeral.lowerCase = "infinity".toList

/-- **A text asks for a time**, in seconds; `⊤` is an infinite time. -/
inductive Lasts : String → WithTop ℚ → Prop
  | forever {s : Option Sign} {word : List Char} :
      Sign.isMinus s = false → IsForever word → Lasts (String.ofList (Sign.chars s ++ word)) ⊤
  | beyond {n : WrittenDecimal} : overflow ≤ n.value → Lasts n.text ⊤
  | seconds {n : WrittenDecimal} {x : ℚ} :
      n.value < overflow → IsNearest |n.value| x → (n.value < 0 → x = 0) → Lasts n.text x

/-! ## Words -/

theorem IsForever.unsigned {word : List Char} (h : IsForever word) : Numeral.Unsigned word := by
  intro c hc
  cases word with
  | nil => cases hc
  | cons d rest =>
      cases hc
      have hlower : Numeral.lowerCase c = 'i' := by
        rcases h with h | h
        · exact (List.cons.inj h).1
        · exact (List.cons.inj h).1
      constructor <;> rintro rfl <;> exact absurd hlower (by decide)

/-- **The words are read as infinite times.** -/
theorem parse?_forever (s : Option Sign) {word : List Char} (h : IsForever word) :
    Numeral.parse? (String.ofList (Sign.chars s ++ word)) = some (.infinity (Sign.isMinus s)) := by
  have hnan : word.map Numeral.lowerCase ≠ "nan".toList := by
    intro hnan
    rcases h with h | h
    · exact absurd (h.symm.trans hnan) (by decide)
    · exact absurd (h.symm.trans hnan) (by decide)
  rw [Numeral.parse?, String.toList_ofList, Numeral.takeSign_chars _ h.unsigned]
  simp only
  rw [if_neg hnan]
  exact if_pos h

/-- Only the words are read as infinite times. -/
theorem exists_forever_of_parse? {text : String} {negative : Bool}
    (h : Numeral.parse? text = some (.infinity negative)) :
    ∃ s word, text = String.ofList (Sign.chars s ++ word) ∧ negative = Sign.isMinus s ∧
      IsForever word := by
  rw [Numeral.parse?] at h
  rcases hsign : Numeral.takeSign text.toList with ⟨negative', word⟩
  obtain ⟨s, htext, hnegative⟩ := Numeral.exists_sign hsign
  rw [hsign] at h
  simp only at h
  split at h
  · cases h
  · split at h
    · next hword =>
        cases h
        exact ⟨s, word, by rw [← htext, String.ofList_toList], hnegative, hword⟩
    · obtain ⟨_, -, hdecimal⟩ := Option.map_eq_some_iff.mp h
      cases hdecimal

/-! ## Sleeping -/

theorem sleep?_eq {text : String} {numeral : Numeral} (h : Numeral.parse? text = some numeral) :
    Directive.sleep? text =
      match ofNumeral numeral with
      | .finite negative m e =>
        if negative = true ∧ m ≠ 0 then none else some (Duration.ofSeconds? m e)
      | .infinite false => some none
      | _ => none := by
  unfold Directive.sleep?
  generalize Numeral.parse? text = parsed at h ⊢
  subst h
  rfl

/-- A decimal is read as the number nearest to its magnitude, or it is beyond the format. -/
theorem ofNumeral_cases (n : WrittenDecimal) :
    (∃ m e, ofNumeral (.decimal (Sign.isMinus n.sign) n.digits.value n.lastPlace) =
        .finite (Sign.isMinus n.sign) m e ∧ IsNearest |n.value| (m * 2 ^ e)) ∨
      ofNumeral (.decimal (Sign.isMinus n.sign) n.digits.value n.lastPlace) =
        .infinite (Sign.isMinus n.sign) ∧ overflow ≤ |n.value| := by
  rw [n.abs_value]
  exact ofNumeral_decimal_cases _ _ _

theorem ofSeconds?_eq_none {v : ℚ} {m : ℕ} {e : ℤ} (h : IsNearest v (m * 2 ^ e))
    (hge : (2 : ℚ) ^ 64 ≤ m * 2 ^ e) : Duration.ofSeconds? m e = none := by
  by_contra hsome
  have hlt := (exists_ofSeconds?_iff h).mp (Option.ne_none_iff_exists'.mp hsome)
  exact absurd hlt (not_lt.mpr hge)

/-- What is beyond the format is nearest to no less than a word of seconds. -/
theorem word_le_of_overflow {v x : ℚ} (h : IsNearest v x) (hv : overflow ≤ v) : (2 : ℚ) ^ 64 ≤ x := by
  refine not_lt.mp fun hlt => ?_
  have hv' := h.lt_iff.mp hlt
  have := word_lt_overflow
  linarith

/-- **A decimal asks to sleep**, unless it has a minus and is not rounded to zero. -/
theorem sleep?_decimal {n : WrittenDecimal} {m : ℕ} {e : ℤ}
    (h : ofNumeral (.decimal (Sign.isMinus n.sign) n.digits.value n.lastPlace) =
      .finite (Sign.isMinus n.sign) m e) :
    Directive.sleep? n.text =
      if Sign.isMinus n.sign = true ∧ m ≠ 0 then none else some (Duration.ofSeconds? m e) := by
  rw [sleep?_eq (Numeral.parse?_text n), h]

theorem significand_eq_zero_iff {m : ℕ} {e : ℤ} : (m : ℚ) * 2 ^ e = 0 ↔ m = 0 := by
  rw [mul_eq_zero, or_iff_left (two_zpow_pos e).ne', Nat.cast_eq_zero]

/-- A decimal with a minus that asks for a time asks for none. -/
theorem eq_zero_of_minus {n : WrittenDecimal} {x : ℚ} (hminus : Sign.isMinus n.sign = true)
    (hnearest : IsNearest |n.value| x) (hnegative : n.value < 0 → x = 0) : x = 0 := by
  rcases (n.nonpos_of_minus hminus).lt_or_eq with hlt | hzero
  · exact hnegative hlt
  · rw [hzero, abs_zero] at hnearest
    exact hnearest.unique (isNearest_zero le_rfl (two_zpow_pos _))

/-- **A text that asks for a time is read**, and it has a duration if and only if the time is less than a
word of seconds. -/
theorem sleep?_of_lasts {text : String} {time : WithTop ℚ} (h : Lasts text time) :
    (wordOfSeconds ≤ time → Directive.sleep? text = some none) ∧
      (time < wordOfSeconds → ∃ d, Directive.sleep? text = some (some d)) := by
  cases h with
  | @forever s word hsign hword =>
      refine ⟨fun _ => ?_, fun hlt => absurd hlt not_top_lt⟩
      rw [sleep?_eq (parse?_forever s hword), hsign]
      rfl
  | @beyond n hbeyond =>
      refine ⟨fun _ => ?_, fun hlt => absurd hlt not_top_lt⟩
      have hpos : 0 < n.value := (by positivity : (0 : ℚ) < 2 ^ 64).trans
        (word_lt_overflow.trans_le hbeyond)
      have hplus : Sign.isMinus n.sign = false :=
        Bool.eq_false_iff.mpr fun hminus => absurd hpos (not_lt.mpr (n.nonpos_of_minus hminus))
      -- Whether or not it has become an infinity, it is more than a word of seconds.
      obtain ⟨m, e, hfinite, hnearest⟩ | ⟨hinfinite, -⟩ := ofNumeral_cases n
      · have hge := word_le_of_overflow hnearest (by rwa [abs_of_pos hpos])
        rw [sleep?_decimal hfinite, ofSeconds?_eq_none hnearest hge, hplus]
        rfl
      · rw [sleep?_eq (Numeral.parse?_text n), hinfinite, hplus]
  | @seconds n x hin hnearest hnegative =>
      obtain ⟨m, e, hfinite, hnearest'⟩ | ⟨-, hgreat⟩ := ofNumeral_cases n
      · obtain rfl : x = m * 2 ^ e := hnearest.unique hnearest'
        have hread : Directive.sleep? n.text = some (Duration.ofSeconds? m e) := by
          rw [sleep?_decimal hfinite, if_neg]
          rintro ⟨hminus, hm⟩
          exact hm (significand_eq_zero_iff.mp (eq_zero_of_minus hminus hnearest hnegative))
        rw [hread, wordOfSeconds, WithTop.coe_le_coe, WithTop.coe_lt_coe]
        refine ⟨fun hge => congrArg some (ofSeconds?_eq_none hnearest hge), fun hlt => ?_⟩
        obtain ⟨d, hd⟩ := (exists_ofSeconds?_iff hnearest).mpr hlt
        exact ⟨d, congrArg some hd⟩
      · -- A magnitude that great belongs to a decimal below zero, which is not rounded to zero.
        have hge := word_le_of_overflow hnearest hgreat
        have hneg : n.value < 0 := by
          by_contra hnonneg
          rw [abs_of_nonneg (not_lt.mp hnonneg)] at hgreat
          linarith
        rw [hnegative hneg] at hge
        exact absurd hge (by norm_num)

/-- One second less than a word of seconds is rounded to it. -/
example : Directive.sleep? "18446744073709551615" = some none := by decide +kernel

/-- A decimal that is read asks for a time. -/
theorem exists_lasts_decimal {n : WrittenDecimal} {r : Option Duration}
    (h : Directive.sleep? n.text = some r) : ∃ time, Lasts n.text time := by
  by_cases hbeyond : overflow ≤ n.value
  · exact ⟨⊤, .beyond hbeyond⟩
  rw [not_le] at hbeyond
  obtain ⟨m, e, hfinite, hnearest⟩ | ⟨hinfinite, hgreat⟩ := ofNumeral_cases n
  · refine ⟨_, .seconds hbeyond hnearest fun hneg => ?_⟩
    have hminus : Sign.isMinus n.sign = true := by
      by_contra hplus
      exact absurd hneg (not_lt.mpr (n.nonneg_of_plus (Bool.eq_false_iff.mpr hplus)))
    rw [significand_eq_zero_iff]
    by_contra hm
    rw [sleep?_decimal hfinite, if_pos ⟨hminus, hm⟩] at h
    cases h
  · cases hsign : Sign.isMinus n.sign with
    | false =>
        rw [abs_of_nonneg (n.nonneg_of_plus hsign)] at hgreat
        exact absurd hbeyond (not_lt.mpr hgreat)
    | true =>
        rw [sleep?_eq (Numeral.parse?_text n), hinfinite, hsign] at h
        cases h

/-- **What is read asks for a time.** -/
theorem exists_lasts_of_sleep? {text : String} {r : Option Duration}
    (h : Directive.sleep? text = some r) : ∃ time, Lasts text time := by
  cases hparse : Numeral.parse? text with
  | none =>
      rw [Directive.sleep?, hparse] at h
      cases h
  | some numeral =>
      cases numeral with
      | nan =>
          rw [sleep?_eq hparse] at h
          cases h
      | infinity negative =>
          rw [sleep?_eq hparse] at h
          obtain ⟨s, word, rfl, rfl, hword⟩ := exists_forever_of_parse? hparse
          cases hsign : Sign.isMinus s with
          | false => exact ⟨⊤, .forever hsign hword⟩
          | true =>
              rw [hsign] at h
              cases h
      | decimal negative c k =>
          obtain ⟨n, rfl⟩ := Numeral.exists_text_of_parse? hparse
          exact exists_lasts_decimal h

end Script

end Conformance
