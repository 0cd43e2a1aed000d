import Mathlib
import Conformance.Proofs.Json.Reader

set_option autoImplicit false

/-! # Records are read back

What is written as a record is a JSON text, and the reader gives back the fields that were written,
in their order (`Json.read_render`). No text breaks out of its quotes: an escaped character is read
back and everything after it is left alone (`Json.readChar_escape`).

A record holds no control character (`Json.le_of_mem_render`), so that it stays on one line.
-/

namespace Conformance

namespace Json

/-! ## Characters -/

theorem hexValue_hexDigit : ∀ n < 16, hexValue (hexDigit n) = some n := by decide

theorem readEscape_code {c : Char} (h : c.toNat < 0x20) (rest : List Char) :
    readEscape ('u' :: '0' :: '0' :: hexDigit (c.toNat / 16) :: hexDigit (c.toNat % 16) :: rest) =
      some (c, rest) := by
  have hhigh := hexValue_hexDigit (c.toNat / 16) (by omega)
  have hlow := hexValue_hexDigit (c.toNat % 16) (by omega)
  have hzero : hexValue '0' = some 0 := by decide
  have hvalue : ((0 * 16 + 0) * 16 + c.toNat / 16) * 16 + c.toNat % 16 = c.toNat := by omega
  have hunit : readUnit ('0' :: '0' :: hexDigit (c.toNat / 16) :: hexDigit (c.toNat % 16) :: rest) =
      some (c.toNat, rest) := by
    simp only [readUnit, hzero, hhigh, hlow, Option.bind_eq_bind, Option.bind_some, hvalue]
    rfl
  have hsmall : c.toNat < 0xD800 ∨ 0xDFFF < c.toNat := by omega
  show readEscapeByCode _ = _
  rw [readEscapeByCode, hunit]
  simp [hsmall]

/-- **An escaped character is read back.** -/
theorem readChar_escape (c : Char) (rest : List Char) :
    readChar (escape c ++ rest) = some (c, rest) := by
  unfold escape
  split
  · next h => subst h; rfl
  split
  · next h => subst h; rfl
  split
  · next h => subst h; rfl
  split
  · next h => subst h; rfl
  split
  · next h => subst h; rfl
  split
  · next h => subst h; rfl
  split
  · next h => subst h; rfl
  split
  · next h => exact readEscape_code h rest
  · next hquote hback _ _ _ _ _ h => simp [readChar, hback, h]

theorem escape_eq_cons (c : Char) : ∃ d more, escape c = d :: more ∧ d ≠ '"' := by
  unfold escape
  split
  · exact ⟨_, _, rfl, by decide⟩
  · next hquote =>
    repeat' split
    all_goals first
      | exact ⟨_, _, rfl, by decide⟩
      | exact ⟨_, _, rfl, hquote⟩

/-- No control character is left in an escaped character. -/
theorem le_of_mem_escape {c d : Char} (h : d ∈ escape c) : 0x20 ≤ d.toNat := by
  have hword : ∀ word : List Char, (word.all fun e => decide (0x20 ≤ e.toNat)) = true →
      d ∈ word → 0x20 ≤ d.toNat :=
    fun _ hall hmem => of_decide_eq_true (List.all_eq_true.mp hall d hmem)
  have hhex : ∀ n < 16, 0x20 ≤ (hexDigit n).toNat := by decide
  -- One case for each character that has an escape of its own, then the codes, then the rest.
  unfold escape at h
  split at h
  · exact hword _ (by decide) h
  split at h
  · exact hword _ (by decide) h
  split at h
  · exact hword _ (by decide) h
  split at h
  · exact hword _ (by decide) h
  split at h
  · exact hword _ (by decide) h
  split at h
  · exact hword _ (by decide) h
  split at h
  · exact hword _ (by decide) h
  split at h
  · next hcode =>
    have hsplit : d ∈ ['\\', 'u', '0', '0'] ++
        [hexDigit (c.toNat / 16), hexDigit (c.toNat % 16)] := h
    rcases List.mem_append.mp hsplit with h | h
    · exact hword _ (by decide) h
    · simp only [List.mem_cons, List.not_mem_nil, or_false] at h
      rcases h with rfl | rfl
      · exact hhex _ (by omega)
      · exact hhex _ (by omega)
  · next hcode =>
    cases List.mem_singleton.mp h
    exact Nat.le_of_not_lt hcode

/-! ## Texts -/

theorem readText_escape (c : Char) (fuel : Nat) (rest : List Char) :
    readText (fuel + 1) (escape c ++ rest) =
      (readText fuel rest).map fun (more, rest) => (c :: more, rest) := by
  obtain ⟨d, more, hd, hne⟩ := escape_eq_cons c
  have h := readChar_escape c rest
  rw [hd, List.cons_append] at h ⊢
  rw [readText, h]
  · cases hr : readText fuel rest <;> simp [hr]
  · rintro _ heq
    cases heq
    exact hne rfl

/-- **Escaped characters are read back up to the quote that ends them.** -/
theorem readText_flatMap (fuel : Nat) (cs rest : List Char) (h : cs.length < fuel) :
    readText fuel (cs.flatMap escape ++ '"' :: rest) = some (cs, rest) := by
  induction cs generalizing fuel with
  | nil =>
      obtain ⟨fuel, rfl⟩ := Nat.exists_eq_add_one_of_ne_zero (Nat.ne_zero_of_lt h)
      rfl
  | cons c cs ih =>
      obtain ⟨fuel, rfl⟩ := Nat.exists_eq_add_one_of_ne_zero (Nat.ne_zero_of_lt h)
      rw [List.flatMap_cons, List.append_assoc, readText_escape,
        ih fuel (Nat.lt_of_succ_lt_succ h)]
      rfl

theorem length_add_two_le (s : String) : s.toList.length + 2 ≤ (quote s).length := by
  have h : s.toList.length ≤ (s.toList.flatMap escape).length := by
    induction s.toList with
    | nil => exact Nat.le_refl 0
    | cons c cs ih =>
        obtain ⟨d, more, hd, -⟩ := escape_eq_cons c
        simp only [List.flatMap_cons, List.length_append, List.length_cons, hd]
        omega
  simp only [quote, List.length_append, List.length_cons, List.length_nil]
  omega

/-! ## Numbers -/

theorem head?_toDigits_ne {n : Nat} (h : 0 < n) : (Nat.toDigits 10 n).head? ≠ some '0' := by
  induction n using Nat.strongRecOn with
  | ind n ih =>
      by_cases hn : n < 10
      · have hdigit : ∀ n < 10, 0 < n → [Nat.digitChar n].head? ≠ some '0' := by decide
        rw [Nat.toDigits_of_lt_base hn]
        exact hdigit n hn h
      · have hhead := ih (n / 10) (by omega) (by omega)
        obtain ⟨d, ds, hds⟩ :=
          List.exists_cons_of_ne_nil (Nat.toDigits_ne_nil (n := n / 10) (b := 10))
        rw [Nat.toDigits_of_base_le (by decide) (by omega), hds]
        rwa [hds] at hhead

theorem isDigit_of_mem_toDigits {n : Nat} {c : Char} (h : c ∈ Nat.toDigits 10 n) :
    c.isDigit = true :=
  Nat.isDigit_of_mem_toDigits (by decide) (by decide) h

/-- What may follow a value inside a record: a comma, or the brace that ends it. -/
def Ends (rest : List Char) : Prop := ∃ more, rest = ',' :: more ∨ rest = '\x7d' :: more

section Numbers

variable {rest : List Char}

theorem span_isDigit {ds : List Char} (hds : ∀ c ∈ ds, c.isDigit = true) (hrest : Ends rest) :
    (ds ++ rest).takeWhile Char.isDigit = ds ∧ (ds ++ rest).dropWhile Char.isDigit = rest := by
  have hstop : rest.takeWhile Char.isDigit = [] ∧ rest.dropWhile Char.isDigit = rest := by
    obtain ⟨more, rfl | rfl⟩ := hrest <;> exact ⟨rfl, rfl⟩
  rw [List.takeWhile_append_of_pos hds, List.dropWhile_append_of_pos hds, hstop.1, hstop.2,
    List.append_nil]
  exact ⟨rfl, rfl⟩

theorem readWhole_toDigits (n : Nat) (hrest : Ends rest) :
    readWhole (Nat.toDigits 10 n ++ rest) = some (Nat.toDigits 10 n, rest) := by
  rcases Nat.eq_zero_or_pos n with rfl | hn
  · rfl
  -- A leading zero stands alone, so that the digits of another number must not begin with one.
  · obtain ⟨htake, hdrop⟩ := span_isDigit (fun _ => isDigit_of_mem_toDigits (n := n)) hrest
    have hne := Nat.toDigits_ne_nil (n := n) (b := 10)
    have hhead := head?_toDigits_ne hn
    rw [readWhole, htake, hdrop, if_neg hne]
    rintro more heq
    obtain ⟨d, ds, hd⟩ := List.exists_cons_of_ne_nil hne
    rw [hd] at heq hhead
    cases heq
    exact hhead rfl

/-- **A number is read back.** -/
theorem readNumber_toDigits (n : Nat) (hrest : Ends rest) :
    readNumber (Nat.toDigits 10 n ++ rest) = some (.number n 0, rest) := by
  have hmagnitude : readMagnitude false (Nat.toDigits 10 n ++ rest) = some (.number n 0, rest) := by
    have hfraction : readFraction rest = some ([], rest) := by
      obtain ⟨more, rfl | rfl⟩ := hrest <;> rfl
    have hexponent : readExponent rest = some (0, rest) := by
      obtain ⟨more, rfl | rfl⟩ := hrest <;> rfl
    rw [readMagnitude, readWhole_toDigits n hrest]
    simp [hfraction, hexponent, Nat.ofDigitChars_ten_toDigits]
  rw [readNumber, hmagnitude]
  rintro more heq
  obtain ⟨d, ds, hd⟩ := List.exists_cons_of_ne_nil (Nat.toDigits_ne_nil (n := n) (b := 10))
  have hdigit : d.isDigit = true := isDigit_of_mem_toDigits (hd ▸ List.mem_cons_self)
  rw [hd] at heq
  cases heq
  exact absurd hdigit (by decide)

end Numbers

/-! ## Values -/

def Value.datum : Value → Datum
  | .text s => .text s
  | .number n => .number n 0
  | .bool b => .bool b

theorem skipSpaces_cons {c : Char} (h : isSpace c = false) (rest : List Char) :
    skipSpaces (c :: rest) = c :: rest := by
  simp [skipSpaces, h]

theorem readValue_digit {d : Char} (h : d.isDigit = true) (fuel : Nat) (rest : List Char) :
    readValue (fuel + 1) (d :: rest) = readNumber (d :: rest) := by
  have hspace : isSpace d = false := by
    cases hs : isSpace d with
    | false => rfl
    | true =>
        simp only [isSpace, Bool.or_eq_true, decide_eq_true_eq] at hs
        rcases hs with ((rfl | rfl) | rfl) | rfl <;> exact absurd h (by decide)
  rw [readValue, skipSpaces_cons hspace]
  split <;> first
    | rfl
    | next heq =>
        cases heq
        exact absurd h (by decide)

/-- **A value is read back.** -/
theorem readValue_render (fuel : Nat) (v : Value) (hfuel : v.render.length < fuel)
    {rest : List Char} (hrest : Ends rest) :
    readValue fuel (v.render ++ rest) = some (v.datum, rest) := by
  obtain ⟨fuel, rfl⟩ := Nat.exists_eq_add_one_of_ne_zero (Nat.ne_zero_of_lt hfuel)
  cases v with
  | text s =>
      have hlength := length_add_two_le s
      have htext := readText_flatMap fuel s.toList rest (by
        rw [Value.render] at hfuel
        omega)
      simp only [Value.render, quote, List.cons_append, List.append_assoc, List.nil_append]
      rw [readValue, skipSpaces_cons (by decide)]
      simp [htext, Value.datum]
  | number n =>
      have hrender : (Value.number n).render = Nat.toDigits 10 n := Nat.toList_repr
      have hread := readNumber_toDigits n hrest
      obtain ⟨d, ds, hd⟩ := List.exists_cons_of_ne_nil (Nat.toDigits_ne_nil (n := n) (b := 10))
      have hdigit : d.isDigit = true := isDigit_of_mem_toDigits (hd ▸ List.mem_cons_self)
      rw [hd, List.cons_append] at hread
      rw [hrender, hd, List.cons_append, readValue_digit hdigit, hread]
      rfl
  | bool b => cases b <;> rfl

/-! ## Records -/

def datumOfField (field : String × Value) : String × Datum := (field.1, field.2.datum)

/-- What is read for a record: its fields in their order. -/
def Record.datum (record : Record) : Datum := .object (record.map datumOfField)

theorem renderFields_cons (field next : String × Value) (rest : Record) :
    renderFields (field :: next :: rest) =
      renderField field ++ ',' :: renderFields (next :: rest) := rfl

/-- **A field is read back**, and then what comes after it decides whether there are more. -/
theorem readMembers_renderField (fuel : Nat) (field : String × Value)
    (hfuel : (renderField field).length < fuel + 1) (rest : List Char) :
    readMembers (fuel + 1) (renderField field ++ ',' :: rest) =
        (readMembers fuel rest).map (fun (more, rest) => (datumOfField field :: more, rest)) ∧
      readMembers (fuel + 1) (renderField field ++ '\x7d' :: rest) =
        some ([datumOfField field], rest) := by
  obtain ⟨name, v⟩ := field
  have hname := length_add_two_le name
  simp only [renderField, List.length_append, List.length_cons] at hfuel
  have htext := fun rest => readText_flatMap fuel name.toList rest (by omega)
  have hvalue : ∀ {rest}, Ends rest → readValue fuel (v.render ++ rest) = some (v.datum, rest) :=
    readValue_render fuel v (by omega)
  simp only [renderField, quote, List.cons_append, List.append_assoc, List.nil_append]
  constructor
  · rw [readMembers, skipSpaces_cons (by decide)]
    simp only [htext, Option.bind_eq_bind, Option.bind_some]
    rw [skipSpaces_cons (by decide)]
    simp only [hvalue ⟨rest, Or.inl rfl⟩, Option.bind_some]
    rw [skipSpaces_cons (by decide)]
    cases hr : readMembers fuel rest <;> simp [hr, datumOfField]
  · rw [readMembers, skipSpaces_cons (by decide)]
    simp only [htext, Option.bind_eq_bind, Option.bind_some]
    rw [skipSpaces_cons (by decide)]
    simp only [hvalue ⟨rest, Or.inr rfl⟩, Option.bind_some]
    rw [skipSpaces_cons (by decide)]
    simp [datumOfField]

/-- **Fields are read back up to the brace that ends them.** -/
theorem readMembers_renderFields (fuel : Nat) (field : String × Value) (others : Record)
    (rest : List Char) (hfuel : (renderFields (field :: others)).length < fuel) :
    readMembers fuel (renderFields (field :: others) ++ '\x7d' :: rest) =
      some ((field :: others).map datumOfField, rest) := by
  induction others generalizing field fuel with
  | nil =>
      obtain ⟨fuel, rfl⟩ := Nat.exists_eq_add_one_of_ne_zero (Nat.ne_zero_of_lt hfuel)
      exact (readMembers_renderField fuel field hfuel rest).2
  | cons next others ih =>
      obtain ⟨fuel, rfl⟩ := Nat.exists_eq_add_one_of_ne_zero (Nat.ne_zero_of_lt hfuel)
      rw [renderFields_cons] at hfuel ⊢
      simp only [List.length_append, List.length_cons] at hfuel
      rw [List.append_assoc, List.cons_append,
        (readMembers_renderField fuel field (by omega) _).1, ih fuel next (by omega)]
      rfl

theorem readValue_object (fuel : Nat) (rest : List Char) :
    readValue (fuel + 1) ('\x7b' :: '"' :: rest) =
      (readMembers fuel ('"' :: rest)).bind fun (members, rest) =>
        some (.object members, rest) := by
  rw [readValue, skipSpaces_cons (by decide)]
  simp only
  rw [skipSpaces_cons (by decide)]
  rfl

/-- **A record is read back**, and there is nothing else in it. -/
theorem read_render (record : Record) : read record.render = some record.datum := by
  cases record with
  | nil => rfl
  | cons field others =>
      have hrender : (Record.render (field :: others)).toList =
          '\x7b' :: (renderFields (field :: others) ++ ['\x7d']) := by
        simp [Record.render]
      have hlength : (renderFields (field :: others)).length <
          2 * (Record.render (field :: others)).toList.length := by
        rw [hrender]
        simp only [List.length_cons, List.length_append]
        omega
      have hmembers := readMembers_renderFields _ field others [] hlength
      rw [read]
      generalize 2 * (Record.render (field :: others)).toList.length = fuel at hmembers ⊢
      rw [hrender]
      obtain ⟨more, hquote⟩ : ∃ more, renderFields (field :: others) ++ ['\x7d'] = '"' :: more := by
        cases others with
        | nil => exact ⟨_, rfl⟩
        | cons next others => exact ⟨_, rfl⟩
      rw [hquote] at hmembers ⊢
      rw [readValue_object, hmembers]
      rfl

/-! ## One line -/

theorem le_of_mem_quote {s : String} {d : Char} (h : d ∈ quote s) : 0x20 ≤ d.toNat := by
  simp only [quote, List.cons_append, List.mem_cons, List.mem_append, List.mem_flatMap,
    List.not_mem_nil, or_false] at h
  rcases h with rfl | ⟨c, -, h⟩ | rfl
  · decide
  · exact le_of_mem_escape h
  · decide

theorem le_of_mem_renderValue {v : Value} {d : Char} (h : d ∈ v.render) : 0x20 ≤ d.toNat := by
  cases v with
  | text s => exact le_of_mem_quote h
  | number n =>
      have hrender : (Value.number n).render = Nat.toDigits 10 n := Nat.toList_repr
      rw [hrender] at h
      have hdigit := isDigit_of_mem_toDigits h
      simp only [Char.isDigit, Bool.and_eq_true, decide_eq_true_eq,
        UInt32.le_iff_toNat_le] at hdigit
      have : (48 : UInt32).toNat ≤ d.toNat := hdigit.1
      exact Nat.le_trans (by decide) this
  | bool b =>
      have hword : ∀ b, ((Value.bool b).render.all fun e => decide (0x20 ≤ e.toNat)) = true := by
        decide
      exact of_decide_eq_true (List.all_eq_true.mp (hword b) d h)

theorem le_of_mem_renderFields {fields : Record} {d : Char} (h : d ∈ renderFields fields) :
    0x20 ≤ d.toNat := by
  have hfield : ∀ {field : String × Value}, d ∈ renderField field → 0x20 ≤ d.toNat := by
    intro field hd
    rcases List.mem_append.mp hd with hd | hd
    · exact le_of_mem_quote hd
    · rcases List.mem_cons.mp hd with rfl | hd
      · decide
      · exact le_of_mem_renderValue hd
  induction fields with
  | nil => cases h
  | cons field others ih =>
      cases others with
      | nil => exact hfield h
      | cons next others =>
          rw [renderFields_cons] at h
          rcases List.mem_append.mp h with h | h
          · exact hfield h
          · rcases List.mem_cons.mp h with rfl | h
            · decide
            · exact ih h

/-- **A record holds no control character.** -/
theorem le_of_mem_render {record : Record} {d : Char} (h : d ∈ record.render.toList) :
    0x20 ≤ d.toNat := by
  simp only [Record.render, String.toList_ofList, List.cons_append, List.mem_cons,
    List.mem_append, List.not_mem_nil, or_false] at h
  rcases h with rfl | h | rfl
  · decide
  · exact le_of_mem_renderFields h
  · decide

end Json

end Conformance
