import Mathlib
import Conformance.Proofs.Text.Utf8

set_option autoImplicit false

/-! # Decoding bytes that are not well formed

The decoder accepts every byte string. What it makes of a byte depends on the bytes before it only as
long as a sequence is open, and only a continuation byte goes on with a sequence: at every other byte
the decoder starts anew, so that a byte string can be decoded in two parts there (`Utf8.decode_append`).
A byte below 0x80 is always a character of its own, and no sequence of other bytes is read as such a
character (`Utf8.exists_mem_of_mem_decode`).

`Utf8.recode` are the bytes of the text that a byte string is decoded to. They are cut by bytes below
0x80 where the byte string is (`Utf8.recode_append_cons`).
-/

namespace Conformance

namespace Utf8

def Continues (b : UInt8) : Prop := 0x80 ≤ b.toNat ∧ b.toNat ≤ 0xBF

/-- **What a sequence has contributed makes a character of several bytes**, whatever the `after`
continuation bytes are that it still needs. -/
def Fits : Nat → Nat → Prop
  | 0, value => 0x80 ≤ value ∧ value.isValidChar
  | after + 1, value => ∀ k, k < 64 → Fits after (value * 64 + k)

/-- **The states that the decoder comes to.** The next byte is expected to be a continuation byte, and
goes on with a sequence that can be a character. -/
inductive State.Sound : State → Prop
  | boundary : Sound .boundary
  | inside {after : Nat} {low high : UInt8} {value : Nat} : 0x80 ≤ low.toNat → high.toNat ≤ 0xBF →
      (∀ k, low.toNat ≤ k + 0x80 → k + 0x80 ≤ high.toNat → Fits after (value * 64 + k)) →
      Sound (.inside after low high value)

/-! ## One byte -/

/-- **A first byte completes a character or opens a sequence.** A character below 0x80 is the byte itself.
The narrower ranges behind some first bytes rule out forms that are too long, surrogates and values that
are too large. -/
theorem lead_cases (b : UInt8) :
    (∃ c, lead b = ([c], .boundary) ∧ (c.toNat < 0x80 → c.toNat = b.toNat)) ∨
      ∃ state, lead b = ([], state) ∧ state ≠ .boundary ∧ state.Sound := by
  have h80 : (0x80 : UInt8).toNat = 0x80 := rfl
  have h8F : (0x8F : UInt8).toNat = 0x8F := rfl
  have h90 : (0x90 : UInt8).toNat = 0x90 := rfl
  have h9F : (0x9F : UInt8).toNat = 0x9F := rfl
  have hA0 : (0xA0 : UInt8).toNat = 0xA0 := rfl
  have hBF : (0xBF : UInt8).toNat = 0xBF := rfl
  obtain ⟨n, hn, rfl⟩ : ∃ n < 256, UInt8.ofNat n = b := ⟨b.toNat, b.toNat_lt, UInt8.ofNat_toNat⟩
  have hlead := lead_ofNat hn
  generalize lead (UInt8.ofNat n) = read at hlead ⊢
  split at hlead
  · refine Or.inl ⟨_, hlead, fun _ => ?_⟩
    rw [toNat_ofNat hn, Char.toNat_ofNat, if_pos (Or.inl (by omega))]
  repeat' split at hlead
  case isTrue | isFalse.isFalse.isFalse.isFalse.isFalse.isFalse.isFalse.isFalse =>
    exact Or.inl ⟨replacement, hlead, fun hlow => absurd hlow (by decide)⟩
  all_goals
    refine Or.inr ⟨_, hlead, nofun, .inside (by omega) (by omega) ?_⟩
    simp only [Fits, Nat.isValidChar]
    intros
    omega

section

variable {state : State} {b : UInt8} {c : Char}

/-- **A byte that does not go on with a sequence ends it**, and is read as a first byte. -/
theorem State.Sound.step_of_not_continues (h : state.Sound) (hb : ¬ Continues b) :
    step state b = (finish state ++ (lead b).1, (lead b).2) := by
  cases h with
  | boundary => rfl
  | @inside after low high value hlow hhigh _ =>
      have hout : ¬ (low ≤ b ∧ b ≤ high) := by
        rw [UInt8.le_iff_toNat_le, UInt8.le_iff_toNat_le]
        exact fun hin => hb ⟨hlow.trans hin.1, hin.2.trans hhigh⟩
      rw [step, if_neg hout]
      rfl

/-- **What one byte does** inside a sequence or in front of one. It completes no character below 0x80 but
itself, and something is completed or a sequence is open. -/
theorem State.Sound.step (h : state.Sound) (b : UInt8) :
    (Utf8.step state b).2.Sound ∧
      ((Utf8.step state b).1 = [] → (Utf8.step state b).2 ≠ .boundary) ∧
      ∀ c ∈ (Utf8.step state b).1, c.toNat < 0x80 → c.toNat = b.toNat := by
  -- A byte that does not continue what is open is read as one that begins something.
  have hlead : (lead b).2.Sound ∧ ((lead b).1 = [] → (lead b).2 ≠ .boundary) ∧
      ∀ c ∈ (lead b).1, c.toNat < 0x80 → c.toNat = b.toNat := by
    obtain ⟨c, hc, hlow⟩ | ⟨state, hopen, hne, hsound⟩ := lead_cases b
    · rw [hc]
      refine ⟨.boundary, fun hnil => absurd hnil (List.cons_ne_nil _ _), fun c' hc' => ?_⟩
      rwa [List.mem_singleton.mp hc']
    · rw [hopen]
      exact ⟨hsound, fun _ => hne, List.forall_mem_nil _⟩
  cases h with
  | boundary => exact hlead
  | @inside after low high value hlow hhigh hfits =>
      by_cases hin : low ≤ b ∧ b ≤ high
      · have hrange : low.toNat ≤ b.toNat ∧ b.toNat ≤ high.toNat :=
          hin.imp UInt8.le_iff_toNat_le.mp UInt8.le_iff_toNat_le.mp
        have hvalue := hfits (b.toNat - 0x80) (by omega) (by omega)
        rw [Utf8.step, if_pos hin]
        generalize value * 64 + (b.toNat - 0x80) = value' at hvalue ⊢
        cases after with
        | zero =>
            refine ⟨.boundary, fun hnil => absurd hnil (List.cons_ne_nil _ _), fun c hc hlow => ?_⟩
            have hcode : (Char.ofNat value').toNat = value' := by
              rw [Char.toNat_ofNat, if_pos hvalue.2]
            rw [List.mem_singleton.mp hc, hcode] at hlow
            exact absurd hvalue.1 (Nat.not_le_of_lt hlow)
        | succ after =>
            refine ⟨.inside (Nat.le_refl _) (Nat.le_refl _) fun k _ hk => ?_, fun _ hstate => ?_,
              List.forall_mem_nil _⟩
            · exact hvalue k (Nat.lt_of_add_lt_add_right (Nat.lt_succ_of_le hk))
            · cases hstate
      · obtain ⟨hsound, -, hchars⟩ := hlead
        rw [Utf8.step, if_neg hin]
        refine ⟨hsound, fun hnil => absurd hnil (List.cons_ne_nil _ _), fun c hc hlow => ?_⟩
        rcases List.mem_cons.mp hc with rfl | hc
        · exact absurd hlow (by decide)
        · exact hchars c hc hlow

end

/-! ## Byte strings -/

section

variable {state : State} {as bs bytes : Bytes} {b : UInt8} {c : Char}

theorem decodeFrom_cons (state : State) (b : UInt8) (rest : Bytes) :
    decodeFrom state (b :: rest) = (step state b).1 ++ decodeFrom (step state b).2 rest := rfl

/-- **Decoding starts anew** in front of a byte that does not go on with a sequence. -/
theorem State.Sound.decodeFrom_append (h : state.Sound) (hbs : ∀ b ∈ bs.head?, ¬ Continues b) :
    decodeFrom state (as ++ bs) = decodeFrom state as ++ decodeFrom .boundary bs := by
  induction as generalizing state with
  | nil =>
      cases bs with
      | nil => exact (List.append_nil _).symm
      | cons b rest =>
          have hstep := h.step_of_not_continues (hbs b rfl)
          rw [List.nil_append, decodeFrom_cons, hstep, List.append_assoc]
          rfl
  | cons a as ih =>
      rw [List.cons_append, decodeFrom_cons, ih (h.step a).1, ← List.append_assoc, decodeFrom_cons]

/-- What is read as a character below 0x80 is one of the bytes. -/
theorem State.Sound.exists_mem_of_mem_decodeFrom (h : state.Sound) (hc : c ∈ decodeFrom state bytes)
    (hlow : c.toNat < 0x80) : ∃ b ∈ bytes, b.toNat = c.toNat := by
  induction bytes generalizing state with
  | nil =>
      cases state with
      | boundary => cases hc
      | inside =>
          rw [List.mem_singleton.mp hc] at hlow
          exact absurd hlow (by decide)
  | cons b rest ih =>
      obtain ⟨hsound, -, hchars⟩ := h.step b
      rcases List.mem_append.mp hc with hc | hc
      · exact ⟨b, List.mem_cons_self, (hchars c hc hlow).symm⟩
      · obtain ⟨b', hb', hcode⟩ := ih hsound hc
        exact ⟨b', List.mem_cons_of_mem b hb', hcode⟩

theorem State.Sound.decodeFrom_eq_nil_iff (h : state.Sound) :
    decodeFrom state bytes = [] ↔ state = .boundary ∧ bytes = [] := by
  constructor
  · intro hnil
    induction bytes generalizing state with
    | nil =>
        cases state with
        | boundary => exact ⟨rfl, rfl⟩
        | inside => cases hnil
    | cons b rest ih =>
        obtain ⟨hsound, hopen, -⟩ := h.step b
        obtain ⟨hchars, hrest⟩ := List.append_eq_nil_iff.mp hnil
        exact absurd (ih hsound hrest).1 (hopen hchars)
  · rintro ⟨rfl, rfl⟩
    rfl

/-- **Bytes are decoded in two parts** if the second part does not go on with a sequence. -/
theorem decode_append (hbs : ∀ b ∈ bs.head?, ¬ Continues b) :
    decode (as ++ bs) = decode as ++ decode bs := by
  rw [decode, State.Sound.boundary.decodeFrom_append hbs, String.ofList_append]
  rfl

/-- **Every character below 0x80 that is read is one of the bytes.** -/
theorem exists_mem_of_mem_decode (hc : c ∈ (decode bytes).toList) (hlow : c.toNat < 0x80) :
    ∃ b ∈ bytes, b.toNat = c.toNat := by
  rw [decode, String.toList_ofList] at hc
  exact State.Sound.boundary.exists_mem_of_mem_decodeFrom hc hlow

theorem decode_eq_empty_iff : decode bytes = "" ↔ bytes = [] := by
  rw [decode, String.ofList_eq_empty_iff, State.Sound.boundary.decodeFrom_eq_nil_iff]
  exact and_iff_right rfl

/-! ## The bytes of the text that is read -/

/-- **The bytes of the text that bytes are decoded to.** -/
def recode (bytes : Bytes) : Bytes := encode (decode bytes)

@[simp] theorem decode_recode (bytes : Bytes) : decode (recode bytes) = decode bytes :=
  decode_encode _

@[simp] theorem recode_eq_nil_iff : recode bytes = [] ↔ bytes = [] := by
  constructor
  · intro h
    rw [← decode_eq_empty_iff, ← decode_recode, h]
    rfl
  · rintro rfl
    rfl

theorem exists_utf8EncodeChar_eq (hb : b.toNat < 0x80) : ∃ c, String.utf8EncodeChar c = [b] := by
  have hcode : (Char.ofNat b.toNat).toNat = b.toNat := by
    rw [Char.toNat_ofNat, if_pos (Or.inl (by omega))]
  refine ⟨Char.ofNat b.toNat, ?_⟩
  have hbytes := encodes_utf8EncodeChar (Char.ofNat b.toNat)
  rw [hcode] at hbytes
  generalize String.utf8EncodeChar (Char.ofNat b.toNat) = bytes at hbytes
  cases hbytes with
  | one => rw [UInt8.ofNat_toNat]
  | two hlow | three hlow | four hlow => omega

/-- **A byte below 0x80 is kept**, and cuts what is read in two. -/
theorem recode_append_cons (hb : b.toNat < 0x80) (as bs : Bytes) :
    recode (as ++ b :: bs) = recode as ++ b :: recode bs := by
  have hstart : ∀ b' ∈ (b :: bs).head?, ¬ Continues b' := by
    rintro b' ⟨⟩ hb'
    exact absurd hb'.1 (Nat.not_le_of_lt hb)
  obtain ⟨c, hc⟩ := exists_utf8EncodeChar_eq hb
  have hrest : decode (b :: bs) = String.ofList [c] ++ decode bs := by
    have hread := decodeFrom_utf8EncodeChar c bs
    rw [hc, List.singleton_append] at hread
    rw [decode, hread, ← List.singleton_append, String.ofList_append]
    rfl
  have hbyte : encode (String.ofList [c]) = [b] := by simp [encode, hc]
  rw [recode, decode_append hstart, hrest, encode_append, encode_append, hbyte]
  rfl

theorem mem_of_mem_recode (hb : b.toNat < 0x80) (h : b ∈ recode bytes) : b ∈ bytes := by
  obtain ⟨c, hc, hcode⟩ := mem_encode_ascii h hb
  obtain ⟨b', hb', hcode'⟩ := exists_mem_of_mem_decode hc (hcode ▸ hb)
  rwa [UInt8.toNat_inj.mp (hcode'.trans hcode)] at hb'

/-- What is read begins with a byte below 0x80 only if the bytes do. -/
theorem recode_eq_cons_iff (hb : b.toNat < 0x80) {rest : Bytes} :
    recode bytes = b :: rest ↔ ∃ bs, bytes = b :: bs ∧ recode bs = rest := by
  constructor
  · intro h
    have hmem : b ∈ bytes := mem_of_mem_recode hb (h ▸ List.mem_cons_self)
    obtain ⟨as, bs, rfl, hfirst⟩ := List.eq_append_cons_of_mem hmem
    rw [recode_append_cons hb] at h
    cases has : recode as with
    | nil =>
        rw [has] at h
        rw [recode_eq_nil_iff] at has
        exact ⟨bs, by rw [has]; rfl, (List.cons.inj h).2⟩
    | cons a as' =>
        -- the first byte would stand in front of itself
        rw [has] at h
        refine absurd (mem_of_mem_recode hb ?_) hfirst
        rw [has, (List.cons.inj h).1]
        exact List.mem_cons_self
  · rintro ⟨bs, rfl, rfl⟩
    exact recode_append_cons hb [] bs

end

end Utf8

end Conformance
