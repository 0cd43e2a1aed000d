import Conformance.Text.Utf8

set_option autoImplicit false

/-! # Encoding and decoding text

Decoding gives back every text that was encoded (`Utf8.decode_encode`): the automaton of the decoder
returns to its boundary after the bytes of a character, with that character read
(`Utf8.decodeFrom_utf8EncodeChar`). The bytes of a character are given by arithmetic on its code
point, so the automaton is first restated on numbers (`Utf8.lead_ofNat`, `Utf8.step_inside`).

In the bytes of a text a byte below 0x80 is always a character of its own (`Utf8.mem_encode_ascii`).
-/

namespace Conformance

namespace Utf8

@[simp] theorem encode_empty : encode "" = [] := rfl

@[simp] theorem encode_append (a b : String) : encode (a ++ b) = encode a ++ encode b := by
  simp [encode]

/-! ## The bytes of a character -/

theorem toNat_ofNat {n : Nat} (hn : n < 256) : (UInt8.ofNat n).toNat = n := by
  rw [UInt8.toNat_ofNat', Nat.mod_eq_of_lt hn]

/-- **The bytes of a character**, by the size of its code point. -/
inductive Encodes (n : Nat) : Bytes → Prop
  | one : n < 0x80 → Encodes n [UInt8.ofNat n]
  | two : 0x80 ≤ n → n < 0x800 →
      Encodes n [UInt8.ofNat (n / 64 + 0xC0), UInt8.ofNat (n % 64 + 0x80)]
  | three : 0x800 ≤ n → n < 0x10000 →
      Encodes n [UInt8.ofNat (n / 4096 + 0xE0), UInt8.ofNat (n / 64 % 64 + 0x80),
        UInt8.ofNat (n % 64 + 0x80)]
  | four : 0x10000 ≤ n → n < 0x110000 →
      Encodes n [UInt8.ofNat (n / 262144 + 0xF0), UInt8.ofNat (n / 4096 % 64 + 0x80),
        UInt8.ofNat (n / 64 % 64 + 0x80), UInt8.ofNat (n % 64 + 0x80)]

theorem encodes_utf8EncodeChar (c : Char) : Encodes c.toNat (String.utf8EncodeChar c) := by
  have hvalid : c.toNat < 0xD800 ∨ 0xDFFF < c.toNat ∧ c.toNat < 0x110000 := c.valid
  have hbytes : String.utf8EncodeChar c =
      if c.toNat ≤ 0x7f then [UInt8.ofNat c.toNat]
      else if c.toNat ≤ 0x7ff then
        [UInt8.ofNat (c.toNat / 64 % 32 + 0xc0), UInt8.ofNat (c.toNat % 64 + 0x80)]
      else if c.toNat ≤ 0xffff then
        [UInt8.ofNat (c.toNat / 4096 % 16 + 0xe0), UInt8.ofNat (c.toNat / 64 % 64 + 0x80),
          UInt8.ofNat (c.toNat % 64 + 0x80)]
      else
        [UInt8.ofNat (c.toNat / 262144 % 8 + 0xf0), UInt8.ofNat (c.toNat / 4096 % 64 + 0x80),
          UInt8.ofNat (c.toNat / 64 % 64 + 0x80), UInt8.ofNat (c.toNat % 64 + 0x80)] := rfl
  rw [hbytes]
  generalize c.toNat = n at hvalid
  split
  · exact .one (by omega)
  · split
    · have : n / 64 % 32 = n / 64 := by omega
      rw [this]
      exact .two (by omega) (by omega)
    · split
      · have : n / 4096 % 16 = n / 4096 := by omega
        rw [this]
        exact .three (by omega) (by omega)
      · have : n / 262144 % 8 = n / 262144 := by omega
        rw [this]
        exact .four (by omega) (by omega)

/-- A byte below 0x80 in the bytes of a code point is that code point. -/
theorem Encodes.eq_of_mem {n : Nat} {bytes : Bytes} {b : UInt8} (h : Encodes n bytes)
    (hb : b ∈ bytes) (hlow : b.toNat < 0x80) : n = b.toNat := by
  cases h with
  | one hn =>
      rw [List.mem_singleton] at hb
      rw [hb, toNat_ofNat (by omega)]
  | two h1 h2 =>
      simp only [List.mem_cons, List.not_mem_nil, or_false] at hb
      rcases hb with rfl | rfl <;> rw [toNat_ofNat (by omega)] at hlow <;> omega
  | three h1 h2 =>
      simp only [List.mem_cons, List.not_mem_nil, or_false] at hb
      rcases hb with rfl | rfl | rfl <;> rw [toNat_ofNat (by omega)] at hlow <;> omega
  | four h1 h2 =>
      simp only [List.mem_cons, List.not_mem_nil, or_false] at hb
      rcases hb with rfl | rfl | rfl | rfl <;> rw [toNat_ofNat (by omega)] at hlow <;> omega

theorem mem_encode_ascii {text : String} {b : UInt8} (hb : b ∈ encode text)
    (hlow : b.toNat < 0x80) : ∃ c ∈ text.toList, c.toNat = b.toNat := by
  obtain ⟨c, hc, hbc⟩ := List.mem_flatMap.mp hb
  exact ⟨c, hc, (encodes_utf8EncodeChar c).eq_of_mem hbc hlow⟩

/-! ## The automaton on numbers -/

theorem ofNat_lt_iff {n : Nat} (hn : n < 256) (b : UInt8) : UInt8.ofNat n < b ↔ n < b.toNat := by
  rw [UInt8.lt_iff_toNat_lt, toNat_ofNat hn]

theorem ofNat_eq_iff {n : Nat} (hn : n < 256) (b : UInt8) : UInt8.ofNat n = b ↔ n = b.toNat := by
  rw [← UInt8.toNat_inj, toNat_ofNat hn]

theorem lead_ofNat {n : Nat} (hn : n < 256) :
    lead (UInt8.ofNat n) =
      if n < 0x80 then ([Char.ofNat n], .boundary)
      else if n < 0xC2 then ([replacement], .boundary)
      else if n < 0xE0 then ([], .inside 0 0x80 0xBF (n - 0xC0))
      else if n = 0xE0 then ([], .inside 1 0xA0 0xBF 0)
      else if n = 0xED then ([], .inside 1 0x80 0x9F 13)
      else if n < 0xF0 then ([], .inside 1 0x80 0xBF (n - 0xE0))
      else if n = 0xF0 then ([], .inside 2 0x90 0xBF 0)
      else if n < 0xF4 then ([], .inside 2 0x80 0xBF (n - 0xF0))
      else if n = 0xF4 then ([], .inside 2 0x80 0x8F 4)
      else ([replacement], .boundary) := by
  simp only [lead, ofNat_lt_iff hn, ofNat_eq_iff hn, toNat_ofNat hn]
  rfl

theorem step_inside {n : Nat} (hn : n < 256) (after : Nat) {low high : UInt8} (value : Nat)
    (hlow : low.toNat ≤ n) (hhigh : n ≤ high.toNat) :
    step (.inside after low high value) (UInt8.ofNat n) =
      match after with
      | 0 => ([Char.ofNat (value * 64 + (n - 0x80))], .boundary)
      | after + 1 => ([], .inside after 0x80 0xBF (value * 64 + (n - 0x80))) := by
  have hrange : low ≤ UInt8.ofNat n ∧ UInt8.ofNat n ≤ high := by
    simp only [UInt8.le_iff_toNat_le, toNat_ofNat hn]
    exact ⟨hlow, hhigh⟩
  cases after with
  | zero => simp only [step, if_pos hrange, toNat_ofNat hn]
  | succ after => simp only [step, if_pos hrange, toNat_ofNat hn]

/-- The first of three bytes leaves room for the second one, unless the code point would be one of
two bytes or a surrogate. -/
theorem lead_three (k second : Nat) (hk : k < 16) (hsecond : second < 64)
    (hfirst : k = 0 → 32 ≤ second) (hsurrogate : k = 13 → second < 32) :
    ∃ low high : UInt8, lead (UInt8.ofNat (k + 0xE0)) = ([], .inside 1 low high k) ∧
      low.toNat ≤ second + 0x80 ∧ second + 0x80 ≤ high.toNat := by
  rw [lead_ofNat (by omega), if_neg (by omega), if_neg (by omega), if_neg (by omega)]
  have h80 : (0x80 : UInt8).toNat = 0x80 := rfl
  have hBF : (0xBF : UInt8).toNat = 0xBF := rfl
  have hA0 : (0xA0 : UInt8).toNat = 0xA0 := rfl
  have h9F : (0x9F : UInt8).toNat = 0x9F := rfl
  by_cases h0 : k = 0
  · subst h0
    exact ⟨0xA0, 0xBF, rfl, by omega, by omega⟩
  · by_cases h13 : k = 13
    · subst h13
      exact ⟨0x80, 0x9F, rfl, by omega, by omega⟩
    · rw [if_neg (by omega), if_neg (by omega), if_pos (by omega), Nat.add_sub_cancel]
      exact ⟨0x80, 0xBF, rfl, by omega, by omega⟩

/-- The first of four bytes leaves room for the second one, unless the code point would be one of
three bytes or too large. -/
theorem lead_four (k second : Nat) (hk : k < 5) (hsecond : second < 64)
    (hfirst : k = 0 → 16 ≤ second) (hlarge : k = 4 → second < 16) :
    ∃ low high : UInt8, lead (UInt8.ofNat (k + 0xF0)) = ([], .inside 2 low high k) ∧
      low.toNat ≤ second + 0x80 ∧ second + 0x80 ≤ high.toNat := by
  rw [lead_ofNat (by omega), if_neg (by omega), if_neg (by omega), if_neg (by omega),
    if_neg (by omega), if_neg (by omega), if_neg (by omega)]
  have h80 : (0x80 : UInt8).toNat = 0x80 := rfl
  have hBF : (0xBF : UInt8).toNat = 0xBF := rfl
  have h90 : (0x90 : UInt8).toNat = 0x90 := rfl
  have h8F : (0x8F : UInt8).toNat = 0x8F := rfl
  by_cases h0 : k = 0
  · subst h0
    exact ⟨0x90, 0xBF, rfl, by omega, by omega⟩
  · by_cases h4 : k = 4
    · subst h4
      exact ⟨0x80, 0x8F, rfl, by omega, by omega⟩
    · rw [if_neg (by omega), if_pos (by omega), Nat.add_sub_cancel]
      exact ⟨0x80, 0xBF, rfl, by omega, by omega⟩

theorem decodeFrom_continue {n : Nat} (after : Nat) {low high : UInt8} (value : Nat) (rest : Bytes)
    (hn : n < 64) (hlow : low.toNat ≤ n + 0x80) (hhigh : n + 0x80 ≤ high.toNat) :
    decodeFrom (.inside (after + 1) low high value) (UInt8.ofNat (n + 0x80) :: rest) =
      decodeFrom (.inside after 0x80 0xBF (value * 64 + n)) rest := by
  rw [decodeFrom, step_inside (by omega) (after + 1) value hlow hhigh, Nat.add_sub_cancel]
  rfl

theorem decodeFrom_last {n : Nat} {low high : UInt8} (value : Nat) (rest : Bytes)
    (hn : n < 64) (hlow : low.toNat ≤ n + 0x80) (hhigh : n + 0x80 ≤ high.toNat) :
    decodeFrom (.inside 0 low high value) (UInt8.ofNat (n + 0x80) :: rest) =
      Char.ofNat (value * 64 + n) :: decodeFrom .boundary rest := by
  rw [decodeFrom, step_inside (by omega) 0 value hlow hhigh, Nat.add_sub_cancel]
  rfl

theorem decodeFrom_lead {n : Nat} {state : State} (rest : Bytes)
    (h : lead (UInt8.ofNat n) = ([], state)) :
    decodeFrom .boundary (UInt8.ofNat n :: rest) = decodeFrom state rest := by
  rw [decodeFrom, step, h]
  rfl

/-! ## Reading back a character -/

theorem Encodes.decodeFrom {n : Nat} {bytes : Bytes} (h : Encodes n bytes)
    (hvalid : n < 0xD800 ∨ 0xDFFF < n) (rest : Bytes) :
    decodeFrom .boundary (bytes ++ rest) = Char.ofNat n :: decodeFrom .boundary rest := by
  have h80 : (0x80 : UInt8).toNat = 0x80 := rfl
  have hBF : (0xBF : UInt8).toNat = 0xBF := rfl
  -- One case for each length; the bytes are taken one by one, the last of them ends the character.
  cases h with
  | one hn =>
      have hlead := lead_ofNat (n := n) (by omega)
      rw [if_pos hn] at hlead
      show Utf8.decodeFrom .boundary (UInt8.ofNat n :: rest) = _
      rw [Utf8.decodeFrom, step, hlead]
      rfl
  | two h1 h2 =>
      have hlead := lead_ofNat (n := n / 64 + 0xC0) (by omega)
      rw [if_neg (by omega), if_neg (by omega), if_pos (by omega)] at hlead
      have hvalue : (n / 64 + 0xC0 - 0xC0) * 64 + n % 64 = n := by omega
      simp only [List.cons_append, List.nil_append]
      rw [decodeFrom_lead _ hlead, decodeFrom_last _ _ (by omega) (by omega) (by omega), hvalue]
  | three h1 h2 =>
      obtain ⟨low, high, hlead, hlow, hhigh⟩ :=
        lead_three (n / 4096) (n / 64 % 64) (by omega) (by omega) (by omega) (by omega)
      have hvalue : (n / 4096 * 64 + n / 64 % 64) * 64 + n % 64 = n := by omega
      simp only [List.cons_append, List.nil_append]
      rw [decodeFrom_lead _ hlead, decodeFrom_continue _ _ _ (by omega) hlow hhigh,
        decodeFrom_last _ _ (by omega) (by omega) (by omega), hvalue]
  | four h1 h2 =>
      obtain ⟨low, high, hlead, hlow, hhigh⟩ :=
        lead_four (n / 262144) (n / 4096 % 64) (by omega) (by omega) (by omega) (by omega)
      have hvalue : ((n / 262144 * 64 + n / 4096 % 64) * 64 + n / 64 % 64) * 64 + n % 64 = n := by
        omega
      simp only [List.cons_append, List.nil_append]
      rw [decodeFrom_lead _ hlead, decodeFrom_continue _ _ _ (by omega) hlow hhigh,
        decodeFrom_continue _ _ _ (by omega) (by omega) (by omega),
        decodeFrom_last _ _ (by omega) (by omega) (by omega), hvalue]

/-- **The decoder reads back every character** and is then at the boundary again. -/
theorem decodeFrom_utf8EncodeChar (c : Char) (rest : Bytes) :
    decodeFrom .boundary (String.utf8EncodeChar c ++ rest) = c :: decodeFrom .boundary rest := by
  have hvalid : c.toNat < 0xD800 ∨ 0xDFFF < c.toNat ∧ c.toNat < 0x110000 := c.valid
  rw [(encodes_utf8EncodeChar c).decodeFrom (by omega), Char.ofNat_toNat]

theorem decodeFrom_flatMap (cs : List Char) (rest : Bytes) :
    decodeFrom .boundary (cs.flatMap String.utf8EncodeChar ++ rest) =
      cs ++ decodeFrom .boundary rest := by
  induction cs with
  | nil => rfl
  | cons c cs ih =>
      rw [List.flatMap_cons, List.append_assoc, decodeFrom_utf8EncodeChar, ih, List.cons_append]

/-- **Decoding gives back every text that was encoded.** -/
@[simp] theorem decode_encode (text : String) : decode (encode text) = text := by
  have h := decodeFrom_flatMap text.toList []
  rw [List.append_nil] at h
  rw [decode, encode, h]
  simp [decodeFrom, finish]

theorem decode?_encode (text : String) : decode? (encode text) = some text := by
  simp [decode?]

end Utf8

end Conformance
