import Mathlib
import Conformance.Time.Numeral

set_option autoImplicit false

/-! # Decimals as they are written

A decimal is written with an optional sign, digits with at most one point among them, and an optional
exponent. `WrittenDecimal` holds these parts, `WrittenDecimal.text` puts them together and
`WrittenDecimal.value` is the exact rational number that is meant. Reading a numeral undoes the writing (`parse?_text`), and only
what is written like this is read as a decimal (`exists_text_of_parse?`).
-/

namespace Conformance

inductive Sign where
  | plus
  | minus
  deriving DecidableEq

namespace Sign

def char : Sign → Char
  | plus => '+'
  | minus => '-'

def chars (s : Option Sign) : List Char := s.toList.map char

def isMinus (s : Option Sign) : Bool := s = some minus

def factor (s : Option Sign) : ℤ := if isMinus s then -1 else 1

end Sign

abbrev Digits := List (Fin 10)

namespace Digits

def chars (ds : Digits) : List Char := ds.map fun d => Nat.digitChar d.val

def value (ds : Digits) : ℕ := Nat.ofDigits 10 (ds.reverse.map Fin.val)

end Digits

structure Exponent where
  capital : Bool
  sign : Option Sign
  digits : Digits
  digits_ne_nil : digits ≠ []

namespace Exponent

def chars (x : Exponent) : List Char :=
  (if x.capital then 'E' else 'e') :: (Sign.chars x.sign ++ x.digits.chars)

def value (x : Exponent) : ℤ := Sign.factor x.sign * x.digits.value

end Exponent

/-- **A decimal as it is written.** The fraction is what stands behind the point, if there is one. -/
structure WrittenDecimal where
  sign : Option Sign
  whole : Digits
  fraction : Option Digits
  exponent : Option Exponent
  digits_ne_nil : whole ++ fraction.getD [] ≠ []

namespace WrittenDecimal

def fractionChars : Option Digits → List Char
  | none => []
  | some ds => '.' :: ds.chars

def exponentChars (x : Option Exponent) : List Char := x.toList.flatMap Exponent.chars

def body (n : WrittenDecimal) : List Char :=
  n.whole.chars ++ fractionChars n.fraction ++ exponentChars n.exponent

/-- **What is written.** -/
def text (n : WrittenDecimal) : String := String.ofList (Sign.chars n.sign ++ n.body)

def digits (n : WrittenDecimal) : Digits := n.whole ++ n.fraction.getD []

/-- The power of ten that the last digit counts. -/
def lastPlace (n : WrittenDecimal) : ℤ :=
  (n.exponent.map Exponent.value).getD 0 - (n.fraction.getD []).length

/-- **What is meant.** -/
def value (n : WrittenDecimal) : ℚ := Sign.factor n.sign * (n.digits.value * 10 ^ n.lastPlace)

end WrittenDecimal

/-! ## Digits -/

namespace Digits

theorem value_append (ds es : Digits) :
    value (ds ++ es) = value ds * 10 ^ es.length + value es := by
  simp only [value, List.reverse_append, List.map_append, Nat.ofDigits_append, List.length_map,
    List.length_reverse]
  ring

theorem value_singleton (d : Fin 10) : value [d] = d := by simp [value]

theorem value_append_singleton (ds : Digits) (d : Fin 10) :
    value (ds ++ [d]) = 10 * value ds + d := by
  rw [value_append, value_singleton, List.length_singleton, pow_one, mul_comm]

theorem value_cons (d : Fin 10) (ds : Digits) :
    value (d :: ds) = d * 10 ^ ds.length + value ds := by
  rw [← List.singleton_append, value_append, value_singleton]

theorem value_lt (ds : Digits) : value ds < 10 ^ ds.length := by
  have h := Nat.ofDigits_lt_base_pow_length (b := 10) (l := ds.reverse.map Fin.val) (by decide) (by
    intro x hx
    obtain ⟨d, -, rfl⟩ := List.mem_map.mp hx
    exact d.isLt)
  simpa [value] using h

theorem chars_ne_nil {ds : Digits} (h : ds ≠ []) : ds.chars ≠ [] := by
  simpa [chars] using h

end Digits

namespace Numeral

theorem isDigit_digitChar (d : Fin 10) : isDigit (Nat.digitChar d) = true := by
  revert d
  decide

theorem digitValue_digitChar (d : Fin 10) : digitValue (Nat.digitChar d) = d :=
  Nat.toNat_digitChar_sub_48_of_lt_ten d.isLt

theorem exists_digitChar {c : Char} (h : isDigit c = true) : ∃ d : Fin 10, Nat.digitChar d = c := by
  simp only [isDigit, Bool.and_eq_true, decide_eq_true_eq, Char.le_def] at h
  have hlow : 48 ≤ c.toNat := h.1
  have hhigh : c.toNat ≤ 57 := h.2
  have hlt : c.toNat - 48 < 10 := by omega
  refine ⟨⟨c.toNat - 48, hlt⟩, Char.toNat_inj.mp ?_⟩
  calc (Nat.digitChar (c.toNat - 48)).toNat = 48 + (c.toNat - 48) :=
        Nat.toNat_digitChar_of_lt_ten hlt
    _ = c.toNat := by omega

theorem all_isDigit_chars (ds : Digits) : ds.chars.all isDigit = true := by
  simp [Digits.chars, isDigit_digitChar]

theorem exists_chars (cs : List Char) (h : ∀ c ∈ cs, isDigit c = true) :
    ∃ ds : Digits, ds.chars = cs := by
  induction cs with
  | nil => exact ⟨[], rfl⟩
  | cons c cs ih =>
      obtain ⟨hc, hcs⟩ := List.forall_mem_cons.mp h
      obtain ⟨d, rfl⟩ := exists_digitChar hc
      obtain ⟨ds, rfl⟩ := ih hcs
      exact ⟨d :: ds, rfl⟩

/-- **The digits of a number are read as that number.** -/
theorem natOfDigits_chars (ds : Digits) : natOfDigits ds.chars = ds.value := by
  induction ds using List.reverseRecOn with
  | nil => rfl
  | append_singleton ds d ih =>
      have hstep : natOfDigits (Digits.chars (ds ++ [d])) =
          10 * natOfDigits (Digits.chars ds) + digitValue (Nat.digitChar d) := by
        simp [natOfDigits, Digits.chars, List.foldl_append]
      rw [hstep, ih, digitValue_digitChar, Digits.value_append_singleton]

def Ends (rest : List Char) : Prop := ∀ c ∈ rest.head?, isDigit c = false

theorem takeWhile_chars (ds : Digits) {rest : List Char} (h : Ends rest) :
    (ds.chars ++ rest).takeWhile isDigit = ds.chars ∧
      (ds.chars ++ rest).dropWhile isDigit = rest := by
  induction ds with
  | nil =>
      cases rest with
      | nil => exact ⟨rfl, rfl⟩
      | cons c rest =>
          have hc : isDigit c = false := h c rfl
          simp [Digits.chars, hc]
  | cons d ds ih =>
      have hd := isDigit_digitChar d
      have hcons : Digits.chars (d :: ds) = Nat.digitChar d :: Digits.chars ds := rfl
      rw [hcons, List.cons_append, List.takeWhile_cons_of_pos hd, List.dropWhile_cons_of_pos hd,
        ih.1, ih.2]
      exact ⟨rfl, rfl⟩

/-! ## Signs -/

/-- What follows a sign is none. -/
def Unsigned (rest : List Char) : Prop := ∀ c ∈ rest.head?, c ≠ '-' ∧ c ≠ '+'

theorem takeSign_chars (s : Option Sign) {rest : List Char} (h : Unsigned rest) :
    takeSign (Sign.chars s ++ rest) = (Sign.isMinus s, rest) := by
  match s with
  | some .plus => rfl
  | some .minus => rfl
  | none =>
      match rest with
      | [] => rfl
      | c :: rest =>
          obtain ⟨hminus, hplus⟩ := h c rfl
          show takeSign (c :: rest) = (false, c :: rest)
          unfold takeSign
          split
          · next heq => exact absurd (List.cons.inj heq).1 hminus
          · next heq => exact absurd (List.cons.inj heq).1 hplus
          · rfl

theorem exists_sign {cs rest : List Char} {negative : Bool}
    (h : takeSign cs = (negative, rest)) :
    ∃ s, cs = Sign.chars s ++ rest ∧ negative = Sign.isMinus s := by
  unfold takeSign at h
  split at h
  · cases h
    exact ⟨some .minus, rfl, rfl⟩
  · cases h
    exact ⟨some .plus, rfl, rfl⟩
  · cases h
    exact ⟨none, rfl, rfl⟩

theorem unsigned_of_isDigit {c : Char} {rest : List Char} (h : isDigit c = true) :
    Unsigned (c :: rest) := by
  intro c' hc'
  cases hc'
  constructor <;> rintro rfl <;> exact absurd h (by decide)

theorem factor_eq (s : Option Sign) (n : ℤ) :
    Sign.factor s * n = if Sign.isMinus s then -n else n := by
  cases h : Sign.isMinus s <;> simp [Sign.factor, h]

/-! ## Exponents -/

theorem exponent?_chars (x : Exponent) :
    exponent? (Sign.chars x.sign ++ x.digits.chars) = some x.value := by
  obtain ⟨d, ds, hd⟩ := List.exists_cons_of_ne_nil x.digits_ne_nil
  have hunsigned : Unsigned x.digits.chars := by
    rw [hd]
    exact unsigned_of_isDigit (isDigit_digitChar d)
  have hdigits : x.digits.chars ≠ [] ∧ x.digits.chars.all isDigit = true := by
    refine ⟨?_, all_isDigit_chars _⟩
    rw [hd]
    exact List.cons_ne_nil _ _
  rw [exponent?, takeSign_chars _ hunsigned]
  simp only
  rw [if_pos hdigits, natOfDigits_chars, Exponent.value, factor_eq]

theorem exponentPart?_chars (x : Option Exponent) :
    exponentPart? (WrittenDecimal.exponentChars x) = some ((x.map Exponent.value).getD 0) := by
  cases x with
  | none => rfl
  | some x =>
      have hchars : WrittenDecimal.exponentChars (some x) =
          (if x.capital then 'E' else 'e') :: (Sign.chars x.sign ++ x.digits.chars) := by
        simp [WrittenDecimal.exponentChars, Exponent.chars]
      have hletter : (if x.capital then 'E' else 'e') = 'e' ∨
          (if x.capital then 'E' else 'e') = 'E' := by
        cases x.capital
        · exact Or.inl rfl
        · exact Or.inr rfl
      rw [hchars, exponentPart?, if_pos hletter]
      exact exponent?_chars x

theorem exists_exponent {cs : List Char} {k : ℤ} (h : exponentPart? cs = some k) :
    ∃ x, cs = WrittenDecimal.exponentChars x := by
  cases cs with
  | nil => exact ⟨none, rfl⟩
  | cons c rest =>
      rw [exponentPart?] at h
      split at h
      · next hletter =>
          rw [exponent?] at h
          rcases hsign : takeSign rest with ⟨negative, digits⟩
          rw [hsign] at h
          simp only at h
          split at h
          · next hdigits =>
              obtain ⟨s, rfl, -⟩ := exists_sign hsign
              obtain ⟨ds, rfl⟩ := exists_chars _ (List.all_eq_true.mp hdigits.2)
              have hne : ds ≠ [] := by
                rintro rfl
                exact hdigits.1 rfl
              rcases hletter with rfl | rfl
              · exact ⟨some ⟨false, s, ds, hne⟩, by simp [WrittenDecimal.exponentChars, Exponent.chars]⟩
              · exact ⟨some ⟨true, s, ds, hne⟩, by simp [WrittenDecimal.exponentChars, Exponent.chars]⟩
          · cases h
      · cases h

/-! ## Decimals -/

theorem ends_exponentChars (x : Option Exponent) : Ends (WrittenDecimal.exponentChars x) := by
  cases x with
  | none => exact fun c hc => nomatch hc
  | some x =>
      intro c hc
      have hhead : (WrittenDecimal.exponentChars (some x)).head? =
          some (if x.capital then 'E' else 'e') := by
        simp [WrittenDecimal.exponentChars, Exponent.chars]
      rw [hhead] at hc
      cases hc
      cases x.capital <;> decide

theorem ends_fractionChars (fraction : Option Digits) (x : Option Exponent) :
    Ends (WrittenDecimal.fractionChars fraction ++ WrittenDecimal.exponentChars x) := by
  cases fraction with
  | none => exact ends_exponentChars x
  | some ds =>
      intro c hc
      cases hc
      decide

theorem takeFraction_chars (fraction : Option Digits) (x : Option Exponent) :
    takeFraction (WrittenDecimal.fractionChars fraction ++ WrittenDecimal.exponentChars x) =
      (Digits.chars (fraction.getD []), WrittenDecimal.exponentChars x) := by
  cases fraction with
  | some ds =>
      obtain ⟨htake, hdrop⟩ := takeWhile_chars ds (ends_exponentChars x)
      have hpoint : takeFraction
          (WrittenDecimal.fractionChars (some ds) ++ WrittenDecimal.exponentChars x) =
          ((ds.chars ++ WrittenDecimal.exponentChars x).takeWhile isDigit,
            (ds.chars ++ WrittenDecimal.exponentChars x).dropWhile isDigit) := rfl
      rw [hpoint, htake, hdrop]
      rfl
  | none =>
      show takeFraction (WrittenDecimal.exponentChars x) = ([], WrittenDecimal.exponentChars x)
      unfold takeFraction
      split
      · next rest heq =>
          -- An exponent does not start with a point.
          cases x with
          | none => cases heq
          | some x =>
              have hhead := congrArg List.head? heq
              cases hcapital : x.capital <;>
                simp [WrittenDecimal.exponentChars, Exponent.chars, hcapital] at hhead
      · rfl

/-- Behind the whole digits there is a point with its digits, or there is none. -/
theorem exists_fraction {cs fraction rest : List Char} (h : takeFraction cs = (fraction, rest)) :
    ∃ f : Option Digits,
      cs = WrittenDecimal.fractionChars f ++ rest ∧ fraction = Digits.chars (f.getD []) := by
  unfold takeFraction at h
  split at h
  · next behind =>
      obtain ⟨ds, hds⟩ := exists_chars (behind.takeWhile isDigit)
        fun c hc => List.mem_takeWhile_imp hc
      cases h
      refine ⟨some ds, ?_, hds.symm⟩
      show '.' :: behind = '.' :: (ds.chars ++ behind.dropWhile isDigit)
      rw [hds, List.takeWhile_append_dropWhile]
  · cases h
    exact ⟨none, rfl, rfl⟩

/-- **The digits, the point and the exponent are read** as the number that they count. -/
theorem decimal?_body (n : WrittenDecimal) : decimal? n.body = some (n.digits.value, n.lastPlace) := by
  have hends := ends_fractionChars n.fraction n.exponent
  obtain ⟨htake, hdrop⟩ := takeWhile_chars n.whole hends
  have hne : ¬ (n.whole.chars = [] ∧ Digits.chars (n.fraction.getD []) = []) := by
    rintro ⟨hwhole, hfraction⟩
    exact n.digits_ne_nil
      (List.append_eq_nil_iff.mpr ⟨List.map_eq_nil_iff.mp hwhole, List.map_eq_nil_iff.mp hfraction⟩)
  have hdigits : n.whole.chars ++ Digits.chars (n.fraction.getD []) = n.digits.chars := by
    simp [Digits.chars, WrittenDecimal.digits]
  rw [decimal?, WrittenDecimal.body, List.append_assoc, htake, hdrop, takeFraction_chars]
  simp only
  rw [if_neg hne, exponentPart?_chars, hdigits, natOfDigits_chars]
  simp [WrittenDecimal.lastPlace, Digits.chars]

theorem head_body (n : WrittenDecimal) :
    ∃ c rest, n.body = c :: rest ∧ (isDigit c = true ∨ c = '.') := by
  rcases hw : n.whole with _ | ⟨d, ds⟩
  · rcases hf : n.fraction with _ | ds
    · exact absurd (by simp [hw, hf]) n.digits_ne_nil
    · refine ⟨'.', ds.chars ++ WrittenDecimal.exponentChars n.exponent, ?_, Or.inr rfl⟩
      rw [WrittenDecimal.body, hw, hf]
      rfl
  · refine ⟨Nat.digitChar d, ?_, ?_, Or.inl (isDigit_digitChar d)⟩
    · exact Digits.chars ds ++ WrittenDecimal.fractionChars n.fraction ++
        WrittenDecimal.exponentChars n.exponent
    · rw [WrittenDecimal.body, hw]
      rfl

theorem lowerCase_digitChar (d : Fin 10) :
    lowerCase (Nat.digitChar d) ≠ 'n' ∧ lowerCase (Nat.digitChar d) ≠ 'i' := by
  revert d
  decide

/-- **A decimal is read as what it means.** -/
theorem parse?_text (n : WrittenDecimal) :
    parse? n.text = some (.decimal (Sign.isMinus n.sign) n.digits.value n.lastPlace) := by
  obtain ⟨c, rest, hbody, hc⟩ := head_body n
  have hunsigned : Unsigned n.body := by
    rw [hbody]
    rcases hc with hc | rfl
    · exact unsigned_of_isDigit hc
    · intro c' hc'
      cases hc'
      decide
  -- No word starts with a digit or a point.
  have hlower : lowerCase c ≠ 'n' ∧ lowerCase c ≠ 'i' := by
    rcases hc with hc | rfl
    · obtain ⟨d, rfl⟩ := exists_digitChar hc
      exact lowerCase_digitChar d
    · decide
  have hword : ∀ w : List Char, w.head? = some 'n' ∨ w.head? = some 'i' →
      n.body.map lowerCase ≠ w := by
    rintro w hw rfl
    rw [hbody] at hw
    simp only [List.map_cons, List.head?_cons, Option.some.injEq] at hw
    exact hw.elim hlower.1 hlower.2
  rw [parse?, WrittenDecimal.text, String.toList_ofList, takeSign_chars _ hunsigned]
  simp only
  rw [if_neg (hword _ (Or.inl rfl)),
    if_neg (not_or.mpr ⟨hword _ (Or.inr rfl), hword _ (Or.inr rfl)⟩), decimal?_body]
  rfl

/-- **Only decimals are read as decimals.** -/
theorem exists_text_of_parse? {text : String} {negative : Bool} {coefficient : ℕ} {exponent : ℤ}
    (h : parse? text = some (.decimal negative coefficient exponent)) :
    ∃ n : WrittenDecimal, text = n.text := by
  rw [parse?] at h
  rcases hsign : takeSign text.toList with ⟨negative', cs⟩
  rw [hsign] at h
  simp only at h
  split at h
  · cases h
  · split at h
    · cases h
    · obtain ⟨⟨coefficient', exponent'⟩, hdecimal, -⟩ := Option.map_eq_some_iff.mp h
      rw [decimal?] at hdecimal
      rcases hfraction : takeFraction (cs.dropWhile isDigit) with ⟨fraction, rest⟩
      rw [hfraction] at hdecimal
      simp only at hdecimal
      split at hdecimal
      · cases hdecimal
      · next hne =>
          obtain ⟨k, hk, -⟩ := Option.map_eq_some_iff.mp hdecimal
          obtain ⟨s, hs, -⟩ := exists_sign hsign
          obtain ⟨x, hx⟩ := exists_exponent hk
          obtain ⟨whole, hwhole⟩ := exists_chars (cs.takeWhile isDigit)
            fun c hc => List.mem_takeWhile_imp hc
          obtain ⟨f, hf, hfd⟩ := exists_fraction hfraction
          have hne' : whole ++ f.getD [] ≠ [] := by
            intro hnil
            obtain ⟨rfl, hfnil⟩ := List.append_eq_nil_iff.mp hnil
            exact hne ⟨hwhole.symm, by rw [hfd, hfnil]; rfl⟩
          -- The text is put together again from what each stage of the reader has left of it.
          refine ⟨⟨s, whole, f, x, hne'⟩, String.toList_injective ?_⟩
          calc text.toList = Sign.chars s ++ cs := hs
            _ = Sign.chars s ++ (cs.takeWhile isDigit ++ cs.dropWhile isDigit) := by
              rw [List.takeWhile_append_dropWhile]
            _ = Sign.chars s ++
                (Digits.chars whole ++ WrittenDecimal.fractionChars f ++ WrittenDecimal.exponentChars x) := by
              rw [hwhole, hf, hx, List.append_assoc]
            _ = (WrittenDecimal.text ⟨s, whole, f, x, hne'⟩).toList := by
              rw [WrittenDecimal.text, String.toList_ofList]
              rfl

end Numeral

/-! ## What a text means -/

namespace WrittenDecimal

/-- **A text means one number**, however it is taken apart. -/
theorem value_eq_of_text_eq {n n' : WrittenDecimal} (h : n.text = n'.text) :
    n.value = n'.value := by
  have hread := Numeral.parse?_text n
  rw [h, Numeral.parse?_text n', Option.some.injEq, Numeral.decimal.injEq] at hread
  obtain ⟨hsign, hdigits, hplace⟩ := hread
  rw [value, value, Sign.factor, Sign.factor, hsign, hdigits, hplace]

section Magnitude

variable (n : WrittenDecimal)

theorem value_of_plus (h : Sign.isMinus n.sign = false) :
    n.value = n.digits.value * 10 ^ n.lastPlace := by
  simp [value, Sign.factor, h]

theorem value_of_minus (h : Sign.isMinus n.sign = true) :
    n.value = -(n.digits.value * 10 ^ n.lastPlace) := by
  simp [value, Sign.factor, h]

theorem nonneg_of_plus (h : Sign.isMinus n.sign = false) : 0 ≤ n.value := by
  rw [n.value_of_plus h]
  positivity

theorem nonpos_of_minus (h : Sign.isMinus n.sign = true) : n.value ≤ 0 := by
  rw [n.value_of_minus h, neg_nonpos]
  positivity

theorem abs_value : |n.value| = n.digits.value * 10 ^ n.lastPlace := by
  cases hsign : Sign.isMinus n.sign with
  | false => rw [abs_of_nonneg (n.nonneg_of_plus hsign), n.value_of_plus hsign]
  | true => rw [abs_of_nonpos (n.nonpos_of_minus hsign), n.value_of_minus hsign, neg_neg]

end Magnitude

/-- **A decimal without minus and exponent** is a whole number of units of its last place, or of any
smaller one. -/
theorem value_mul_ten_pow {n : WrittenDecimal} (hsign : Sign.factor n.sign = 1)
    (hexponent : n.exponent = none) {places : ℕ} (hplaces : (n.fraction.getD []).length ≤ places) :
    n.value * 10 ^ places = (n.digits.value * 10 ^ (places - (n.fraction.getD []).length) : ℕ) := by
  have hplace : n.lastPlace = -((n.fraction.getD []).length : ℤ) := by
    simp [lastPlace, hexponent]
  rw [value, hsign, hplace, zpow_neg, zpow_natCast, Int.cast_one, one_mul]
  push_cast
  rw [pow_sub₀ _ (by norm_num) hplaces]
  ring

/-- A digit or a point. -/
def isEnd (c : Char) : Bool := Numeral.isDigit c || c = '.'

theorem isEnd_of_mem_chars {ds : Digits} {c : Char} (h : c ∈ ds.chars) : isEnd c = true := by
  rw [isEnd, List.all_eq_true.mp (Numeral.all_isDigit_chars ds) c h, Bool.true_or]

/-- **A decimal ends with digits or a point.** -/
theorem exists_end (n : WrittenDecimal) :
    ∃ front last, n.text.toList = front ++ last ∧ last ≠ [] ∧ ∀ c ∈ last, isEnd c = true := by
  rw [text, String.toList_ofList, body]
  cases hexponent : n.exponent with
  | some x =>
      refine ⟨Sign.chars n.sign ++ (n.whole.chars ++ fractionChars n.fraction) ++
        (if x.capital then 'E' else 'e') :: Sign.chars x.sign, x.digits.chars, ?_,
        Digits.chars_ne_nil x.digits_ne_nil, fun c => isEnd_of_mem_chars⟩
      simp [exponentChars, Exponent.chars]
  | none =>
      cases hfraction : n.fraction with
      | some ds =>
          refine ⟨Sign.chars n.sign ++ n.whole.chars, '.' :: ds.chars, ?_, List.cons_ne_nil _ _, ?_⟩
          · simp [exponentChars, fractionChars]
          · intro c hc
            rcases List.mem_cons.mp hc with rfl | hc
            · rfl
            · exact isEnd_of_mem_chars hc
      | none =>
          refine ⟨Sign.chars n.sign, n.whole.chars, ?_, Digits.chars_ne_nil ?_,
            fun c => isEnd_of_mem_chars⟩
          · simp [exponentChars, fractionChars]
          · simpa [hfraction] using n.digits_ne_nil

end WrittenDecimal

end Conformance
