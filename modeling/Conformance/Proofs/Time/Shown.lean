import Mathlib
import Conformance.Proofs.Time.Timeout
import Conformance.Verdict

set_option autoImplicit false

/-! # Durations as they are shown

A duration is shown as a decimal and a unit. `Measures` says how long a text of that kind is, without
any regard to durations; a text has one length at most (`Measures.unique`). The text of a duration is
exactly as long as the duration, so no two durations have one text (`timedOut_message_denotes`). It is
also tidy: nothing is written that could be left out (`WrittenDecimal.Tidy`), and the unit is the
largest that the duration holds at least one of.
-/

namespace Conformance

/-! ## Units -/

inductive TimeUnit where
  | second
  | millisecond
  | microsecond
  | nanosecond
  deriving DecidableEq, Repr

namespace TimeUnit

/-- The letters behind a number of them. -/
def letters : TimeUnit → List Char
  | second => ['s']
  | millisecond => ['m', 's']
  | microsecond => ['µ', 's']
  | nanosecond => ['n', 's']

def symbol (u : TimeUnit) : String := String.ofList u.letters

/-- The decimal places in which nanoseconds are counted. -/
def places : TimeUnit → ℕ
  | second => 9
  | millisecond => 6
  | microsecond => 3
  | nanosecond => 0

def nanos : TimeUnit → ℕ
  | second => 1000000000
  | millisecond => 1000000
  | microsecond => 1000
  | nanosecond => 1

theorem nanos_eq (u : TimeUnit) : u.nanos = 10 ^ u.places := by
  cases u <;> rfl

theorem letters_injective : Function.Injective letters := by
  intro u u'
  cases u <;> cases u' <;> decide

theorem isEnd_of_mem_letters {u : TimeUnit} {c : Char} (h : c ∈ u.letters) :
    WrittenDecimal.isEnd c = false := by
  have hall : (u.letters.all fun c => !WrittenDecimal.isEnd c) = true := by
    cases u <;> decide
  simpa using List.all_eq_true.mp hall c h

end TimeUnit

/-! ## What a text measures -/

/-- **A text measures `t` nanoseconds**: it is a decimal and a unit, and `t` is that many units. -/
def Measures (text : String) (t : ℚ) : Prop :=
  ∃ (n : WrittenDecimal) (u : TimeUnit), text = n.text ++ u.symbol ∧ t = n.value * u.nanos

/-- What stands behind a decimal, up to the end of another one, is no part of a unit. -/
theorem eq_nil_of_text_eq {n n' : WrittenDecimal} {more : List Char}
    (h : n.text.toList = n'.text.toList ++ more)
    (hmore : ∀ c ∈ more, WrittenDecimal.isEnd c = false) : more = [] := by
  obtain ⟨front, last, heq, hne, hlast⟩ := n.exists_end
  by_contra hnil
  have hend : (n'.text.toList ++ more).getLast? = (front ++ last).getLast? := by rw [← h, heq]
  rw [List.getLast?_append_of_ne_nil _ hnil, List.getLast?_append_of_ne_nil _ hne,
    List.getLast?_eq_some_getLast hnil, List.getLast?_eq_some_getLast hne] at hend
  have hletter := hmore _ (List.getLast_mem hnil)
  rw [Option.some.inj hend, hlast _ (List.getLast_mem hne)] at hletter
  cases hletter

/-- **A text has one measure at most**: there is one place where the decimal can end. -/
theorem Measures.unique {text : String} {t t' : ℚ} (h : Measures text t) (h' : Measures text t') :
    t = t' := by
  obtain ⟨n, u, rfl, rfl⟩ := h
  obtain ⟨n', u', heq, rfl⟩ := h'
  have hchars : n.text.toList ++ u.letters = n'.text.toList ++ u'.letters := by
    have := congrArg String.toList heq
    simpa [TimeUnit.symbol] using this
  have hletters : ∀ {u : TimeUnit} {more rest : List Char}, u.letters = more ++ rest →
      ∀ c ∈ more, WrittenDecimal.isEnd c = false := by
    intro u more rest hu c hc
    exact TimeUnit.isEnd_of_mem_letters (hu ▸ List.mem_append_left _ hc)
  have hparts : n.text = n'.text ∧ u = u' := by
    rcases List.append_eq_append_iff.mp hchars with ⟨more, hn, hu⟩ | ⟨more, hn, hu⟩
    · obtain rfl := eq_nil_of_text_eq hn (hletters hu)
      exact ⟨String.toList_injective (by simpa using hn.symm), TimeUnit.letters_injective hu⟩
    · obtain rfl := eq_nil_of_text_eq hn (hletters hu)
      exact ⟨String.toList_injective (by simpa using hn), TimeUnit.letters_injective hu.symm⟩
  rw [WrittenDecimal.value_eq_of_text_eq hparts.1, hparts.2]

/-! ## Tidy decimals -/

/-- **Nothing in a decimal could be left out**: it has no sign and no exponent, no zero in front of
other digits, and a point only before digits of which the last one counts. -/
structure WrittenDecimal.Tidy (n : WrittenDecimal) : Prop where
  sign : n.sign = none
  exponent : n.exponent = none
  whole_ne_nil : n.whole ≠ []
  whole_eq_zero : ∀ ds, n.whole = 0 :: ds → ds = []
  fraction_last : ∀ ds, n.fraction = some ds → ∃ d, ds.getLast? = some d ∧ d ≠ 0

namespace WrittenDecimal

variable {whole part : Digits}

/-- The decimal with these digits in front of the point and behind it. Without digits behind it the
point is left out. -/
def plain (whole part : Digits) (h : whole ≠ []) : WrittenDecimal where
  sign := none
  whole := whole
  fraction := if part = [] then none else some part
  exponent := none
  digits_ne_nil := by simp [h]

theorem plain_fraction (h : whole ≠ []) : (plain whole part h).fraction.getD [] = part := by
  by_cases hnil : part = [] <;> simp [plain, hnil]

theorem toList_text_plain (h : whole ≠ []) : (plain whole part h).text.toList =
    whole.chars ++ if part = [] then [] else '.' :: part.chars := by
  rw [text, String.toList_ofList, body]
  by_cases hnil : part = [] <;> simp [plain, hnil, Sign.chars, fractionChars, exponentChars]

theorem plain_tidy (h : whole ≠ []) (hzero : ∀ ds, whole = 0 :: ds → ds = [])
    (hlast : part.getLast? ≠ some 0) : (plain whole part h).Tidy where
  sign := rfl
  exponent := rfl
  whole_ne_nil := h
  whole_eq_zero := hzero
  fraction_last := by
    intro ds hds
    obtain ⟨hne, rfl⟩ : part ≠ [] ∧ part = ds := by simpa [plain] using hds
    have hlast' := List.getLast?_eq_some_getLast hne
    exact ⟨_, hlast', fun hzero => hlast (by rw [hlast', hzero])⟩

/-- **What a plain decimal counts** in the last of `places` places. -/
theorem plain_value (h : whole ≠ []) {places : ℕ} (hlength : part.length ≤ places) :
    (plain whole part h).value * 10 ^ places =
      (whole.value * 10 ^ places + part.value * 10 ^ (places - part.length) : ℕ) := by
  have hplaces : ((plain whole part h).fraction.getD []).length ≤ places := by
    rwa [plain_fraction]
  have hdigits : (plain whole part h).digits.value =
      whole.value * 10 ^ part.length + part.value := by
    rw [digits, plain_fraction, Digits.value_append]
    rfl
  have hsign : Sign.factor (plain whole part h).sign = 1 := rfl
  rw [value_mul_ten_pow hsign rfl hplaces, plain_fraction, hdigits, add_mul, mul_assoc, ← pow_add,
    Nat.add_sub_cancel' hlength]

end WrittenDecimal

/-- The digits of a whole number, without zeros in front. -/
theorem exists_digits (w : ℕ) : ∃ ds : Digits, ds.chars = Nat.toDigits 10 w ∧ ds.value = w ∧
    ds ≠ [] ∧ ∀ rest, ds = 0 :: rest → rest = [] := by
  obtain ⟨ds, hds⟩ := Numeral.exists_chars (Nat.toDigits 10 w) fun c hc =>
    show c.isDigit = true from Nat.isDigit_of_mem_toDigits (by decide) (by decide) hc
  have hvalue : ds.value = w := by
    rw [← Numeral.natOfDigits_chars, hds]
    exact Nat.ofDigitChars_ten_toDigits
  refine ⟨ds, hds, hvalue, ?_, ?_⟩
  · rintro rfl
    exact Nat.toDigits_ne_nil hds.symm
  · rintro rest rfl
    -- Behind a zero there would be enough digits for the number.
    by_contra hrest
    have hlength : (Nat.toDigits 10 w).length = rest.length + 1 := by
      rw [← hds, Digits.chars, List.length_map, List.length_cons]
    have hlt : w < 10 ^ rest.length := by
      have hzero : Digits.value (0 :: rest) = Digits.value rest := by
        simp [Digits.value_cons]
      rw [← hvalue, hzero]
      exact Digits.value_lt rest
    have hle := (Nat.length_toDigits_le_iff (by decide) (List.length_pos_iff.mpr hrest)).mpr hlt
    omega

namespace Duration

theorem digit_eq {n : ℕ} (h : n < 10) : digit n = Nat.digitChar n := by
  have hall : ∀ d : Fin 10, digit d = Nat.digitChar d := by decide
  exact hall ⟨n, h⟩

/-- **The digits of a fraction**: they count the part of a unit, and the last of them is not zero. -/
theorem exists_fractionDigits {places part : ℕ} (h : part < 10 ^ places) :
    ∃ ds : Digits, ds.chars = fractionDigits places part ∧ ds.length ≤ places ∧
      ds.value * 10 ^ (places - ds.length) = part ∧ ds.getLast? ≠ some 0 := by
  induction places generalizing part with
  | zero =>
      obtain rfl : part = 0 := by simpa using h
      exact ⟨[], rfl, le_rfl, rfl, by simp⟩
  | succ places ih =>
      by_cases hzero : part = 0
      · refine ⟨[], ?_, Nat.zero_le _, ?_, by simp⟩
        · rw [fractionDigits, if_pos hzero]
          rfl
        · rw [hzero]
          exact Nat.zero_mul _
      · have hfirst : part / 10 ^ places < 10 := by
          refine Nat.div_lt_of_lt_mul ?_
          rwa [← pow_succ]
        have hsplit : part / 10 ^ places * 10 ^ places + part % 10 ^ places = part :=
          Nat.div_add_mod' _ _
        obtain ⟨ds, hds, hlength, hvalue, hlast⟩ :=
          ih (Nat.mod_lt part (Nat.pow_pos (by decide) : 0 < 10 ^ places))
        refine ⟨⟨part / 10 ^ places, hfirst⟩ :: ds, ?_, ?_, ?_, ?_⟩
        · have hstep : fractionDigits (places + 1) part =
              digit (part / 10 ^ places) :: fractionDigits places (part % 10 ^ places) := by
            rw [fractionDigits, if_neg hzero]
            rfl
          rw [hstep, ← hds, digit_eq hfirst]
          rfl
        · exact Nat.succ_le_succ hlength
        · rw [List.length_cons, Nat.add_sub_add_right, Digits.value_cons, add_mul, hvalue, mul_assoc,
            ← pow_add, Nat.add_sub_cancel' hlength]
          exact hsplit
        · cases ds with
          | nil =>
              -- The only digit is not zero, since the part is not.
              have hrest : part % 10 ^ places = 0 := by rw [← hvalue]; exact Nat.zero_mul _
              intro hnone
              have hfirst0 : part / 10 ^ places = 0 := by simpa [Fin.ext_iff] using hnone
              rw [hrest, hfirst0] at hsplit
              omega
          | cons d ds =>
              rwa [List.getLast?_cons_cons]

/-- **A number of units and a part of a unit are written as a tidy decimal.** -/
theorem exists_decimal (whole : ℕ) {places part : ℕ} (h : part < 10 ^ places) :
    ∃ n : WrittenDecimal, decimal whole part places = n.text ∧ n.Tidy ∧ n.whole.value = whole ∧
      n.value * 10 ^ places = (whole * 10 ^ places + part : ℕ) := by
  obtain ⟨ws, hws, hwvalue, hwne, hwzero⟩ := exists_digits whole
  obtain ⟨ds, hds, hlength, hvalue, hlast⟩ := exists_fractionDigits h
  refine ⟨.plain ws ds hwne, ?_, WrittenDecimal.plain_tidy hwne hwzero hlast, hwvalue, ?_⟩
  · have hrepr : (toString whole).toList = ws.chars := by
      rw [hws]
      exact Nat.toList_repr
    apply String.toList_injective
    rw [WrittenDecimal.toList_text_plain, decimal, ← hds, String.toList_append, hrepr]
    by_cases hnil : ds = []
    · rw [if_pos hnil, hnil]
      rfl
    · simp [hnil, Digits.chars_ne_nil hnil]
  · rw [WrittenDecimal.plain_value hwne hlength, hwvalue, hvalue]

/-! ## The unit of a duration -/

/-- **A unit is the largest that a duration holds at least one of**, if it holds one of any. -/
structure IsLargest (d : Duration) (u : TimeUnit) : Prop where
  pos : d ≠ zero → 0 < d.toNanos / u.nanos
  largest : ∀ u' : TimeUnit, u.nanos < u'.nanos → d.toNanos / u'.nanos = 0

def amount (d : Duration) (u : TimeUnit) : String :=
  decimal (d.toNanos / u.nanos) (d.toNanos % u.nanos) u.places ++ u.symbol

/-- **A duration is shown in its largest unit.** -/
theorem exists_unit (d : Duration) : ∃ u : TimeUnit, d.text = d.amount u ∧ d.IsLargest u := by
  have hnanos : (d.nanos : ℕ) < 1000000000 := d.nanos.isLt
  have hlength : d.toNanos = d.seconds.toNat * 1000000000 + d.nanos := rfl
  have hpos : d ≠ zero → 0 < d.toNanos := fun hd =>
    Nat.pos_of_ne_zero (mt toNanos_eq_zero_iff.mp hd)
  have hword : 0 < d.seconds ↔ 0 < d.seconds.toNat := UInt64.lt_iff_toNat_lt
  by_cases hseconds : 0 < d.seconds
  · have hseconds' := hword.mp hseconds
    have hwhole : d.toNanos / 1000000000 = d.seconds.toNat := by omega
    have hpart : d.toNanos % 1000000000 = d.nanos := by omega
    refine ⟨.second, ?_, fun _ => ?_, fun u' hlt => ?_⟩
    · rw [text, if_pos hseconds, ← hwhole, ← hpart]
      rfl
    · show 0 < d.toNanos / 1000000000
      omega
    · cases u' <;> simp [TimeUnit.nanos] at hlt
  · -- Without seconds the length is the number of nanoseconds.
    have hseconds' := mt hword.mpr hseconds
    have hsmall : (d.nanos : ℕ) = d.toNanos := by omega
    rw [text, if_neg hseconds, hsmall]
    rw [hsmall] at hnanos
    split_ifs with hmillis hmicros
    · refine ⟨.millisecond, rfl, fun _ => ?_, fun u' hlt => ?_⟩
      · show 0 < d.toNanos / 1000000
        omega
      · cases u' <;> simp only [TimeUnit.nanos] at hlt ⊢ <;> omega
    · refine ⟨.microsecond, rfl, fun _ => ?_, fun u' hlt => ?_⟩
      · show 0 < d.toNanos / 1000
        omega
      · cases u' <;> simp only [TimeUnit.nanos] at hlt ⊢ <;> omega
    · refine ⟨.nanosecond, ?_, fun hd => ?_, fun u' hlt => ?_⟩
      · rw [amount, TimeUnit.nanos, Nat.div_one, Nat.mod_one]
        rfl
      · rw [TimeUnit.nanos, Nat.div_one]
        exact hpos hd
      · cases u' <;> simp only [TimeUnit.nanos] at hlt ⊢ <;> omega

/-- **The text of a duration** is a tidy decimal and the largest unit of the duration, and it counts
the whole duration. -/
theorem exists_text (d : Duration) : ∃ (n : WrittenDecimal) (u : TimeUnit),
    d.text = n.text ++ u.symbol ∧ n.Tidy ∧ d.IsLargest u ∧
      n.whole.value = d.toNanos / u.nanos ∧ n.value * u.nanos = d.toNanos := by
  obtain ⟨u, htext, hlargest⟩ := d.exists_unit
  have hpart : d.toNanos % u.nanos < 10 ^ u.places := by
    rw [u.nanos_eq]
    exact Nat.mod_lt _ (Nat.pow_pos (by decide))
  obtain ⟨n, hn, htidy, hwhole, hvalue⟩ := exists_decimal (d.toNanos / u.nanos) hpart
  refine ⟨n, u, ?_, htidy, hlargest, hwhole, ?_⟩
  · rw [htext, amount, hn]
  · rw [← u.nanos_eq, Nat.div_add_mod'] at hvalue
    rw [← hvalue, u.nanos_eq]
    push_cast
    rfl

theorem measures_text (d : Duration) : Measures d.text d.toNanos := by
  obtain ⟨n, u, htext, -, -, -, hvalue⟩ := d.exists_text
  exact ⟨n, u, htext, hvalue.symm⟩

/-- **No two durations have one text.** -/
theorem text_injective : Function.Injective text := by
  intro d d' h
  have hsame := (h ▸ d.measures_text).unique d'.measures_text
  exact toNanos_injective (by exact_mod_cast hsame)

end Duration

/-! ## The message of a missed deadline -/

/-- **The message of a missed deadline gives the deadline exactly.** What follows its first words
measures the deadline and nothing else; it is a tidy decimal, whose whole part is not zero unless the
deadline is, and the largest unit with such a whole part. So no two deadlines have one message. -/
theorem timedOut_message_denotes (d : Duration) :
    ∃ text, (Failure.timedOut d).message = "Timed out after " ++ text ∧
      (∀ t : ℚ, Measures text t ↔ t = d.seconds.toNat * 10 ^ 9 + (d.nanos : ℕ)) ∧
      (∃ (n : WrittenDecimal) (u : TimeUnit), text = n.text ++ u.symbol ∧ n.Tidy ∧
        n.whole.value = d.toNanos / u.nanos ∧ (n.whole.value = 0 → d = .zero) ∧
        ∀ u' : TimeUnit, u.nanos < u'.nanos → d.toNanos / u'.nanos = 0) ∧
      ∀ d' : Duration, (Failure.timedOut d').message = (Failure.timedOut d).message ↔ d' = d := by
  have hmeasures := d.measures_text
  have hlength : (d.toNanos : ℚ) = d.seconds.toNat * 10 ^ 9 + (d.nanos : ℕ) := by
    rw [Duration.toNanos]
    push_cast
    norm_num
  refine ⟨d.text, rfl, fun t => ?_, ?_, fun d' => ⟨fun h => ?_, fun h => by rw [h]⟩⟩
  · rw [← hlength]
    exact ⟨fun h => h.unique hmeasures, fun h => h ▸ hmeasures⟩
  · obtain ⟨n, u, htext, htidy, hlargest, hwhole, -⟩ := d.exists_text
    refine ⟨n, u, htext, htidy, hwhole, fun hzero => ?_, hlargest.largest⟩
    by_contra hd
    have := hlargest.pos hd
    omega
  · exact Duration.text_injective ((String.append_right_inj _).mp h)

/-- Zeros inside a fraction are kept, those at its end are not. -/
example : (Failure.timedOut ⟨1, 1000⟩).message = "Timed out after 1.000001s" := by decide +kernel

end Conformance
