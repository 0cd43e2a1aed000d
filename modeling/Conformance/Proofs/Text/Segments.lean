import Conformance.Proofs.Text.Lossy

set_option autoImplicit false

/-! # What is replaced in bytes that are not well formed

Every byte string is a row of segments, in exactly one way (`Utf8.exists_segmented`,
`Utf8.Segmented.unique`): a segment is all the bytes of a character, or else a maximal prefix of an
ill-formed sequence. The latter stands where no character can be read. It is the beginning of some
character, cut at the first byte with which no character goes on, or a single byte with which no
character begins (`Utf8.Broken`). Forms that are too long, surrogates and values above U+10FFFF are
the bytes of no character, so nothing has to be said about them.

The decoder reads one character for each segment: the character itself, or U+FFFD
(`Utf8.decode_by_segments`). A U+FFFD that is read has thus either been there or stands for a maximal
prefix, and there are more of them than before if and only if the bytes are not well formed.
-/

namespace Conformance

namespace Utf8

/-! ## Segments -/

/-- **Bytes that some character begins with**; they may be all of its bytes. -/
def Begins (part : Bytes) : Prop := ∃ c, part <+: String.utf8EncodeChar c

/-- **A maximal prefix of an ill-formed sequence**, in front of the bytes `rest`. -/
structure Broken (part rest : Bytes) : Prop where
  /-- No character can be read where it starts. -/
  unreadable : ∀ c, ¬ String.utf8EncodeChar c <+: part ++ rest
  ne_nil : part ≠ []
  /-- It is what some character begins with, or else one byte. -/
  begins : Begins part ∨ ∃ b, part = [b]
  /-- It ends where no character goes on. -/
  maximal : ∀ b ∈ rest.head?, ¬ Begins (part ++ [b])

/-- What a byte string consists of: all the bytes of a character, or the beginning of an ill-formed
sequence. -/
inductive Segment where
  | whole (c : Char)
  | broken (part : Bytes)

namespace Segment

def char : Segment → Char
  | whole c => c
  | broken _ => replacement

def isBroken : Segment → Bool
  | whole _ => false
  | broken _ => true

end Segment

/-- **The segments of a byte string.** -/
inductive Segmented : Bytes → List Segment → Prop
  | nil : Segmented [] []
  | whole {rest : Bytes} {segments : List Segment} (c : Char) : Segmented rest segments →
      Segmented (String.utf8EncodeChar c ++ rest) (.whole c :: segments)
  | broken {part rest : Bytes} {segments : List Segment} : Broken part rest →
      Segmented rest segments → Segmented (part ++ rest) (.broken part :: segments)

/-- Bytes that are the bytes of a text. -/
def WellFormed (bytes : Bytes) : Prop := ∃ text, encode text = bytes

/-- How often the bytes of U+FFFD stand in a byte string. -/
def replacements (bytes : Bytes) : Nat :=
  bytes.tails.countP ((String.utf8EncodeChar replacement).isPrefixOf ·)

/-! ## The bytes of characters -/

section

variable {c c' : Char} {b : UInt8} {part rest : Bytes}

theorem Begins.shorten {part' : Bytes} (h : Begins part) (hstarts : part' <+: part) :
    Begins part' := by
  obtain ⟨c, hc⟩ := h
  exact ⟨c, hstarts.trans hc⟩

theorem utf8EncodeChar_ne_nil (c : Char) : String.utf8EncodeChar c ≠ [] := by
  intro hnil
  have hread := decodeFrom_utf8EncodeChar c []
  rw [hnil] at hread
  cases hread

theorem decodeFrom_char (c : Char) : decodeFrom .boundary (String.utf8EncodeChar c) = [c] := by
  have hread := decodeFrom_utf8EncodeChar c []
  rwa [List.append_nil] at hread

/-- **No character begins with another one.** -/
theorem eq_of_prefix_utf8EncodeChar
    (h : String.utf8EncodeChar c <+: String.utf8EncodeChar c') : c = c' := by
  obtain ⟨more, hmore⟩ := h
  have hread := decodeFrom_char c'
  rw [← hmore, decodeFrom_utf8EncodeChar] at hread
  exact (List.cons.inj hread).1

theorem Encodes.unique {n : Nat} {bytes bytes' : Bytes} (h : Encodes n bytes)
    (h' : Encodes n bytes') : bytes = bytes' := by
  cases h <;> cases h' <;> first | rfl | omega

theorem Encodes.utf8EncodeChar_eq {n : Nat} {bytes : Bytes} (h : Encodes n bytes)
    (hvalid : n.isValidChar) : String.utf8EncodeChar (Char.ofNat n) = bytes := by
  have hcode : (Char.ofNat n).toNat = n := by rw [Char.toNat_ofNat, if_pos hvalid]
  have hbytes := encodes_utf8EncodeChar (Char.ofNat n)
  rw [hcode] at hbytes
  exact hbytes.unique h

/-- **All bytes of a character but the first one continue it.** -/
theorem continues_of_mem_tail {conts : Bytes} (h : String.utf8EncodeChar c = b :: conts) :
    ∀ x ∈ conts, Continues x := by
  have hbytes := encodes_utf8EncodeChar c
  rw [h] at hbytes
  have hlast : ∀ n, Continues (UInt8.ofNat (n % 64 + 0x80)) := by
    intro n
    unfold Continues
    rw [toNat_ofNat (by omega)]
    omega
  cases hbytes with
  | one _ => exact List.forall_mem_nil _
  | two _ _ => exact List.forall_mem_cons.mpr ⟨hlast _, List.forall_mem_nil _⟩
  | three _ _ =>
      exact List.forall_mem_cons.mpr ⟨hlast _, List.forall_mem_cons.mpr ⟨hlast _, List.forall_mem_nil _⟩⟩
  | four _ _ =>
      exact List.forall_mem_cons.mpr ⟨hlast _, List.forall_mem_cons.mpr
        ⟨hlast _, List.forall_mem_cons.mpr ⟨hlast _, List.forall_mem_nil _⟩⟩⟩

end

/-! ## Open sequences -/

/-- **What a sequence has contributed and the bytes it consists of make a character**, whatever the `after`
continuation bytes are that it still needs. -/
def Completes : Nat → Nat → Bytes → Prop
  | 0, value, bytes => String.utf8EncodeChar (Char.ofNat value) = bytes
  | after + 1, value, bytes =>
      ∀ k, k < 64 → Completes after (value * 64 + k) (bytes ++ [UInt8.ofNat (k + 0x80)])

/-- **The bytes `part` have opened a sequence**: the decoder has read them and has come to `state`, in which
every byte of the range that is expected goes on with a character. -/
inductive Opened (part : Bytes) : State → Prop
  | mk {after value : Nat} {low high : UInt8} :
      (∀ rest, decodeFrom .boundary (part ++ rest) = decodeFrom (.inside after low high value) rest) →
      0x80 ≤ low.toNat → low.toNat ≤ high.toNat → high.toNat ≤ 0xBF →
      (∀ k, low.toNat ≤ k + 0x80 → k + 0x80 ≤ high.toNat →
        Completes after (value * 64 + k) (part ++ [UInt8.ofNat (k + 0x80)])) →
      Opened part (.inside after low high value)

section

variable {b : UInt8} {part rest bytes : Bytes} {after value : Nat} {low high : UInt8}

theorem Completes.begins (h : Completes after value bytes) : Begins bytes := by
  induction after generalizing value bytes with
  | zero =>
      refine ⟨Char.ofNat value, ?_⟩
      rw [show String.utf8EncodeChar (Char.ofNat value) = bytes from h]
  | succ after ih => exact (ih (h 0 (by decide))).shorten (List.prefix_append _ _)

/-! ### First bytes

The bytes of a code point in the digits that its bytes hold. -/

theorem encodes_two {a k : Nat} (ha : a < 32) (hk : k < 64) (hsize : 0x80 ≤ a * 64 + k) :
    Encodes (a * 64 + k) [UInt8.ofNat (a + 0xC0), UInt8.ofNat (k + 0x80)] := by
  have hbytes : Encodes (a * 64 + k) _ := .two hsize (by omega)
  have hfirst : (a * 64 + k) / 64 = a := by omega
  have hlast : (a * 64 + k) % 64 = k := by omega
  rwa [hfirst, hlast] at hbytes

theorem encodes_three {a k l : Nat} (ha : a < 16) (hk : k < 64) (hl : l < 64)
    (hsize : 0x20 ≤ a * 64 + k) :
    Encodes ((a * 64 + k) * 64 + l)
      [UInt8.ofNat (a + 0xE0), UInt8.ofNat (k + 0x80), UInt8.ofNat (l + 0x80)] := by
  have hbytes : Encodes ((a * 64 + k) * 64 + l) _ := .three (by omega) (by omega)
  have hfirst : ((a * 64 + k) * 64 + l) / 4096 = a := by omega
  have hsecond : ((a * 64 + k) * 64 + l) / 64 % 64 = k := by omega
  have hlast : ((a * 64 + k) * 64 + l) % 64 = l := by omega
  rwa [hfirst, hsecond, hlast] at hbytes

theorem encodes_four {a k l m : Nat} (hk : k < 64) (hl : l < 64) (hm : m < 64)
    (hsize : 0x10 ≤ a * 64 + k) (hlarge : a * 64 + k < 0x110) :
    Encodes (((a * 64 + k) * 64 + l) * 64 + m)
      [UInt8.ofNat (a + 0xF0), UInt8.ofNat (k + 0x80), UInt8.ofNat (l + 0x80),
        UInt8.ofNat (m + 0x80)] := by
  have hbytes : Encodes (((a * 64 + k) * 64 + l) * 64 + m) _ := .four (by omega) (by omega)
  have hfirst : (((a * 64 + k) * 64 + l) * 64 + m) / 262144 = a := by omega
  have hsecond : (((a * 64 + k) * 64 + l) * 64 + m) / 4096 % 64 = k := by omega
  have hthird : (((a * 64 + k) * 64 + l) * 64 + m) / 64 % 64 = l := by omega
  have hlast : (((a * 64 + k) * 64 + l) * 64 + m) % 64 = m := by omega
  rwa [hfirst, hsecond, hthird, hlast] at hbytes

theorem opened_two {a : Nat} (ha : 2 ≤ a) (ha' : a < 32)
    (hlead : lead (UInt8.ofNat (a + 0xC0)) = ([], .inside 0 0x80 0xBF a)) :
    Opened [UInt8.ofNat (a + 0xC0)] (.inside 0 0x80 0xBF a) := by
  have h80 : (0x80 : UInt8).toNat = 0x80 := rfl
  have hBF : (0xBF : UInt8).toNat = 0xBF := rfl
  refine .mk (fun rest => decodeFrom_lead rest hlead) (by omega) (by omega) (by omega) ?_
  intro k _ hk
  exact (encodes_two ha' (by omega) (by omega)).utf8EncodeChar_eq (Or.inl (by omega))

/-- The first of three bytes opens a sequence, if the second one rules out the code points of two bytes
and the surrogates. -/
theorem opened_three {a : Nat} (ha : a < 16)
    (hlead : lead (UInt8.ofNat (a + 0xE0)) = ([], .inside 1 low high a))
    (hlow : 0x80 ≤ low.toNat) (hrange : low.toNat ≤ high.toNat) (hhigh : high.toNat ≤ 0xBF)
    (hfits : ∀ k, low.toNat ≤ k + 0x80 → k + 0x80 ≤ high.toNat →
      0x20 ≤ a * 64 + k ∧ (a * 64 + k < 0x360 ∨ 0x380 ≤ a * 64 + k)) :
    Opened [UInt8.ofNat (a + 0xE0)] (.inside 1 low high a) := by
  refine .mk (fun rest => decodeFrom_lead rest hlead) hlow hrange hhigh ?_
  intro k hk hk' l hl
  obtain ⟨hsize, hsurrogate⟩ := hfits k hk hk'
  refine (encodes_three ha (by omega) hl hsize).utf8EncodeChar_eq ?_
  unfold Nat.isValidChar
  omega

/-- The first of four bytes opens a sequence, if the second one rules out the code points of three bytes
and those that are too large. -/
theorem opened_four {a : Nat}
    (hlead : lead (UInt8.ofNat (a + 0xF0)) = ([], .inside 2 low high a))
    (hlow : 0x80 ≤ low.toNat) (hrange : low.toNat ≤ high.toNat) (hhigh : high.toNat ≤ 0xBF)
    (hfits : ∀ k, low.toNat ≤ k + 0x80 → k + 0x80 ≤ high.toNat →
      0x10 ≤ a * 64 + k ∧ a * 64 + k < 0x110) :
    Opened [UInt8.ofNat (a + 0xF0)] (.inside 2 low high a) := by
  refine .mk (fun rest => decodeFrom_lead rest hlead) hlow hrange hhigh ?_
  intro k hk hk' l hl m hm
  obtain ⟨hsize, hlarge⟩ := hfits k hk hk'
  refine (encodes_four (by omega) hl hm hsize hlarge).utf8EncodeChar_eq ?_
  unfold Nat.isValidChar
  omega

theorem not_begins_of_lead (h : lead b = ([replacement], .boundary)) : ¬ Begins [b] := by
  rintro ⟨c, more, hmore⟩
  have hread := decodeFrom_char c
  rw [← hmore, List.singleton_append, decodeFrom_cons, step, h, List.singleton_append] at hread
  obtain ⟨rfl, hnil⟩ := List.cons.inj hread
  rw [(State.Sound.boundary.decodeFrom_eq_nil_iff.mp hnil).2, List.append_nil] at hmore
  have hlength : 1 = (String.utf8EncodeChar replacement).length := congrArg List.length hmore
  exact absurd hlength (by decide)

/-- **A first byte is a character, or opens a sequence, or begins no character at all.** -/
theorem lead_opens (b : UInt8) :
    (∃ c, lead b = ([c], .boundary) ∧ String.utf8EncodeChar c = [b]) ∨
      lead b = ([replacement], .boundary) ∧ ¬ Begins [b] ∨
      ∃ state, lead b = ([], state) ∧ Opened [b] state := by
  have h80 : (0x80 : UInt8).toNat = 0x80 := rfl
  have h8F : (0x8F : UInt8).toNat = 0x8F := rfl
  have h90 : (0x90 : UInt8).toNat = 0x90 := rfl
  have h9F : (0x9F : UInt8).toNat = 0x9F := rfl
  have hA0 : (0xA0 : UInt8).toNat = 0xA0 := rfl
  have hBF : (0xBF : UInt8).toNat = 0xBF := rfl
  obtain ⟨n, hn, rfl⟩ : ∃ n < 256, UInt8.ofNat n = b := ⟨b.toNat, b.toNat_lt, UInt8.ofNat_toNat⟩
  have hlead := lead_ofNat hn
  split at hlead
  · next hone =>
      exact Or.inl ⟨_, hlead, (Encodes.one hone).utf8EncodeChar_eq (Or.inl (by omega))⟩
  refine Or.inr ?_
  split at hlead
  · exact Or.inl ⟨hlead, not_begins_of_lead hlead⟩
  split at hlead
  · obtain ⟨a, rfl⟩ : ∃ a, n = a + 0xC0 := ⟨n - 0xC0, by omega⟩
    rw [Nat.add_sub_cancel] at hlead
    exact Or.inr ⟨_, hlead, opened_two (by omega) (by omega) hlead⟩
  -- Three bytes; the second one is restricted behind `E0` and `ED`.
  split at hlead
  · next hE0 =>
      subst hE0
      exact Or.inr ⟨_, hlead, opened_three (by decide) hlead (by decide) (by decide) (by decide)
        (by omega)⟩
  split at hlead
  · next hED =>
      subst hED
      exact Or.inr ⟨_, hlead, opened_three (by decide) hlead (by decide) (by decide) (by decide)
        (by omega)⟩
  split at hlead
  · obtain ⟨a, rfl⟩ : ∃ a, n = a + 0xE0 := ⟨n - 0xE0, by omega⟩
    rw [Nat.add_sub_cancel] at hlead
    exact Or.inr ⟨_, hlead, opened_three (by omega) hlead (by decide) (by decide) (by decide)
      (by omega)⟩
  -- Four bytes; the second one is restricted behind `F0` and `F4`.
  split at hlead
  · next hF0 =>
      subst hF0
      exact Or.inr ⟨_, hlead, opened_four hlead (by decide) (by decide) (by decide) (by omega)⟩
  split at hlead
  · obtain ⟨a, rfl⟩ : ∃ a, n = a + 0xF0 := ⟨n - 0xF0, by omega⟩
    rw [Nat.add_sub_cancel] at hlead
    exact Or.inr ⟨_, hlead, opened_four hlead (by decide) (by decide) (by decide) (by omega)⟩
  split at hlead
  · next hF4 =>
      subst hF4
      exact Or.inr ⟨_, hlead, opened_four hlead (by decide) (by decide) (by decide) (by omega)⟩
  · exact Or.inl ⟨hlead, not_begins_of_lead hlead⟩

/-! ### The bytes after it -/

/-- **A sequence goes on with every byte of the range**: its character is read, or it stays open. -/
theorem Opened.step_of_mem (h : Opened part (.inside after low high value))
    (hb : low ≤ b ∧ b ≤ high) :
    (∃ c, step (.inside after low high value) b = ([c], .boundary) ∧
      String.utf8EncodeChar c = part ++ [b]) ∨
    ∃ state, step (.inside after low high value) b = ([], state) ∧ Opened (part ++ [b]) state := by
  cases h with
  | mk hreads hlow hrange hhigh hcompletes =>
      have hrange' : low.toNat ≤ b.toNat ∧ b.toNat ≤ high.toNat :=
        hb.imp UInt8.le_iff_toNat_le.mp UInt8.le_iff_toNat_le.mp
      obtain ⟨k, hk⟩ : ∃ k, b.toNat = k + 0x80 := ⟨b.toNat - 0x80, by omega⟩
      rw [hk] at hrange'
      have hvalue := hcompletes k hrange'.1 hrange'.2
      have hstep := step_inside (by omega) after value hrange'.1 hrange'.2
      rw [← hk, UInt8.ofNat_toNat] at hvalue hstep
      rw [hk, Nat.add_sub_cancel] at hstep
      cases after with
      | zero => exact Or.inl ⟨_, hstep, hvalue⟩
      | succ after =>
          refine Or.inr ⟨_, hstep, .mk (fun rest => ?_) (by decide) (by decide) (by decide) ?_⟩
          · rw [List.append_assoc, List.singleton_append, hreads, decodeFrom_cons, hstep,
              List.nil_append]
          · intro k' _ hk'
            have hBF : (0xBF : UInt8).toNat = 0xBF := rfl
            exact hvalue k' (by omega)

/-- **No character goes on with any other byte**, and the decoder starts anew with it. -/
theorem Opened.not_begins (h : Opened part (.inside after low high value))
    (hb : ¬ (low ≤ b ∧ b ≤ high)) : ¬ Begins (part ++ [b]) := by
  rintro ⟨c, more, hmore⟩
  cases h with
  | mk hreads _ _ _ _ =>
      -- The character would be what is read after a replacement, which is at least one more.
      have hread := decodeFrom_char c
      rw [← hmore, List.append_assoc, List.singleton_append, hreads, decodeFrom_cons, step,
        if_neg hb] at hread
      have hnil : decodeFrom .boundary (b :: more) = [] := (List.cons.inj hread).2
      exact absurd (State.Sound.boundary.decodeFrom_eq_nil_iff.mp hnil).2 (List.cons_ne_nil _ _)

/-- A sequence that is open is the beginning of a character, and not all of it. -/
theorem Opened.exists_begins {state : State} (h : Opened part state) : ∃ b, Begins (part ++ [b]) := by
  cases h with
  | @mk after value low high _ hlow hrange hhigh hcompletes =>
      obtain ⟨k, hk⟩ : ∃ k, low.toNat = k + 0x80 := ⟨low.toNat - 0x80, by omega⟩
      exact ⟨_, (hcompletes k (by omega) (by omega)).begins⟩

theorem Opened.ne_nil {state : State} (h : Opened part state) : part ≠ [] := by
  rintro rfl
  cases h with
  | mk hreads _ _ _ _ => exact absurd (hreads []) (List.cons_ne_nil _ _).symm

/-- **An open sequence that does not go on is a maximal prefix.** -/
theorem Opened.broken {state : State} (h : Opened part state)
    (hstop : ∀ b ∈ rest.head?, ¬ Begins (part ++ [b])) : Broken part rest := by
  obtain ⟨b, hb⟩ := h.exists_begins
  refine ⟨fun c hc => ?_, h.ne_nil, Or.inl (hb.shorten (List.prefix_append part [b])), hstop⟩
  obtain ⟨c', hc'⟩ := hb
  have hnot : ¬ String.utf8EncodeChar c <+: part := by
    intro hshort
    -- A character within the beginning of another one is that one, which has a byte more.
    have hsame := hshort.trans ((List.prefix_append part [b]).trans hc')
    rw [eq_of_prefix_utf8EncodeChar hsame] at hshort
    simpa using (hc'.trans hshort).length_le
  rcases List.prefix_or_prefix_of_prefix hc (List.prefix_append part rest) with hshort | ⟨more, hmore⟩
  · exact hnot hshort
  · cases more with
    | nil =>
        rw [List.append_nil] at hmore
        exact hnot (hmore ▸ List.prefix_rfl)
    | cons x more =>
        rw [← hmore, List.prefix_append_right_inj] at hc
        obtain ⟨last, rfl⟩ := hc
        refine hstop x rfl ⟨c, more, ?_⟩
        rw [List.append_assoc, List.singleton_append, hmore]

theorem broken_of_not_begins (h : ¬ Begins [b]) : Broken [b] rest := by
  refine ⟨fun c hc => ?_, List.cons_ne_nil b [], Or.inr ⟨b, rfl⟩, fun x _ hx => ?_⟩
  · obtain ⟨first, conts, hbytes⟩ := List.exists_cons_of_ne_nil (utf8EncodeChar_ne_nil c)
    rw [hbytes, List.singleton_append, List.cons_prefix_cons] at hc
    obtain ⟨rfl, -⟩ := hc
    exact h ⟨c, conts, by rw [hbytes, List.singleton_append]⟩
  · exact h (hx.shorten (List.prefix_append [b] [x]))

/-! ## Reading segments -/

/-- **The decoder reads one character for each segment**, at the start and inside a sequence. -/
theorem exists_segmented (bytes : Bytes) :
    (∃ segments, Segmented bytes segments ∧ decodeFrom .boundary bytes = segments.map Segment.char) ∧
    ∀ part state, Opened part state → ∃ segments, Segmented (part ++ bytes) segments ∧
      decodeFrom state bytes = segments.map Segment.char := by
  -- Inside a sequence the bytes that have opened it are carried along as `part`.
  induction bytes with
  | nil =>
      refine ⟨⟨[], .nil, rfl⟩, fun part state h => ?_⟩
      refine ⟨[.broken part], .broken (h.broken (by simp)) .nil, ?_⟩
      cases h
      rfl
  | cons b rest ih =>
      obtain ⟨⟨segments, hsegments, hread⟩, hopened⟩ := ih
      have hstart : ∃ segments, Segmented (b :: rest) segments ∧
          decodeFrom .boundary (b :: rest) = segments.map Segment.char := by
        rw [decodeFrom_cons, step]
        obtain ⟨c, hlead, hc⟩ | ⟨hlead, hbegins⟩ | ⟨state, hlead, hopen⟩ := lead_opens b
        · refine ⟨.whole c :: segments, ?_, ?_⟩
          · have h := Segmented.whole c hsegments
            rwa [hc] at h
          · rw [hlead, hread]
            rfl
        · refine ⟨.broken [b] :: segments, .broken (broken_of_not_begins hbegins) hsegments, ?_⟩
          rw [hlead, hread]
          rfl
        · rw [hlead]
          exact hopened [b] state hopen
      refine ⟨hstart, fun part state h => ?_⟩
      cases state with
      | boundary => cases h
      | inside after low high value =>
          by_cases hb : low ≤ b ∧ b ≤ high
          · rw [decodeFrom_cons, ← List.singleton_append, ← List.append_assoc]
            obtain ⟨c, hstep, hc⟩ | ⟨state, hstep, hopen⟩ := h.step_of_mem hb
            · refine ⟨.whole c :: segments, ?_, ?_⟩
              · rw [← hc]
                exact .whole c hsegments
              · rw [hstep, hread]
                rfl
            · rw [hstep]
              exact hopened _ state hopen
          · -- The sequence ends in front of `b`, which is read anew.
            obtain ⟨segments', hsegments', hread'⟩ := hstart
            refine ⟨.broken part :: segments', .broken (h.broken ?_) hsegments', ?_⟩
            · rintro x ⟨⟩
              exact h.not_begins hb
            · rw [decodeFrom_cons, step, if_neg hb, List.map_cons, ← hread']
              rfl

end

/-! ## There is one way to cut -/

section

variable {part part' rest rest' bytes : Bytes} {segments segments' : List Segment}

theorem Broken.length_le (h : Broken part rest) (h' : Broken part' rest')
    (heq : part ++ rest = part' ++ rest') : part'.length ≤ part.length := by
  by_contra hlonger
  -- A longer one would go on with the byte at which the shorter one ends.
  have hstarts : part <+: part' := by
    have hpart : part <+: part' ++ rest' := heq ▸ List.prefix_append part rest
    exact List.prefix_of_prefix_length_le hpart (List.prefix_append part' rest') (by omega)
  obtain ⟨more, rfl⟩ := hstarts
  cases more with
  | nil => simp at hlonger
  | cons x more =>
      rw [List.append_assoc, List.append_cancel_left_eq] at heq
      refine h.maximal x (by rw [heq]; rfl) ?_
      rcases h'.begins with hbegins | ⟨b, hb⟩
      · refine hbegins.shorten ⟨more, ?_⟩
        rw [List.append_assoc, List.singleton_append]
      · have hnil : part = [] := by
          cases part with
          | nil => rfl
          | cons _ _ => simp at hb
        exact absurd hnil h.ne_nil

theorem Broken.unique (h : Broken part rest) (h' : Broken part' rest')
    (heq : part ++ rest = part' ++ rest') : part = part' ∧ rest = rest' :=
  List.append_inj heq (Nat.le_antisymm (h'.length_le h heq.symm) (h.length_le h' heq))

/-- **A byte string is cut into segments in one way only.** -/
theorem Segmented.unique (h : Segmented bytes segments) (h' : Segmented bytes segments') :
    segments = segments' := by
  -- Where a character can be read nothing is broken, so both cuts begin with the same kind of segment.
  induction h generalizing segments' with
  | nil =>
      generalize hbytes : ([] : Bytes) = bytes at h'
      cases h' with
      | nil => rfl
      | whole c _ =>
          exact absurd (List.append_eq_nil_iff.mp hbytes.symm).1 (utf8EncodeChar_ne_nil c)
      | broken hbroken _ => exact absurd (List.append_eq_nil_iff.mp hbytes.symm).1 hbroken.ne_nil
  | @whole rest segments c _ ih =>
      generalize hbytes : String.utf8EncodeChar c ++ rest = bytes at h'
      cases h' with
      | nil => exact absurd (List.append_eq_nil_iff.mp hbytes).1 (utf8EncodeChar_ne_nil c)
      | @whole rest' _ c' h' =>
          have hread := congrArg (decodeFrom .boundary) hbytes
          rw [decodeFrom_utf8EncodeChar, decodeFrom_utf8EncodeChar] at hread
          obtain ⟨rfl, -⟩ := List.cons.inj hread
          rw [List.append_cancel_left_eq] at hbytes
          subst hbytes
          rw [ih h']
      | broken hbroken _ => exact absurd (hbytes ▸ List.prefix_append _ _) (hbroken.unreadable c)
  | @broken part rest segments hpart _ ih =>
      generalize hbytes : part ++ rest = bytes at h'
      cases h' with
      | nil => exact absurd (List.append_eq_nil_iff.mp hbytes).1 hpart.ne_nil
      | whole c _ => exact absurd (hbytes ▸ List.prefix_append _ _) (hpart.unreadable c)
      | broken hpart' h' =>
          obtain ⟨rfl, rfl⟩ := hpart.unique hpart' hbytes
          rw [ih h']

/-! ## Well-formed bytes -/

theorem segmented_flatMap (cs : List Char) :
    Segmented (cs.flatMap String.utf8EncodeChar) (cs.map .whole) := by
  induction cs with
  | nil => exact .nil
  | cons c cs ih => exact .whole c ih

/-- **Bytes are well formed if and only if nothing in them is broken.** -/
theorem Segmented.wellFormed_iff (h : Segmented bytes segments) :
    WellFormed bytes ↔ ∀ s ∈ segments, s.isBroken = false := by
  constructor
  · rintro ⟨text, rfl⟩ s hs
    rw [h.unique (segmented_flatMap text.toList)] at hs
    obtain ⟨c, -, rfl⟩ := List.mem_map.mp hs
    rfl
  · intro hwhole
    induction h with
    | nil => exact ⟨"", rfl⟩
    | whole c _ ih =>
        obtain ⟨text, rfl⟩ := ih fun s hs => hwhole s (List.mem_cons_of_mem _ hs)
        exact ⟨String.ofList [c] ++ text, by simp [encode]⟩
    | broken _ _ _ => exact absurd (hwhole _ List.mem_cons_self).symm Bool.false_ne_true

/-! ## Counting U+FFFD -/

theorem replacements_cons (b : UInt8) (rest : Bytes) :
    replacements (b :: rest) =
      replacements rest + if String.utf8EncodeChar replacement <+: b :: rest then 1 else 0 := by
  simp [replacements, List.countP_cons, List.isPrefixOf_iff_prefix]

/-- The bytes of U+FFFD do not begin inside a character. -/
theorem replacements_append_of_continues {conts : Bytes} (h : ∀ x ∈ conts, Continues x) :
    replacements (conts ++ rest) = replacements rest := by
  induction conts with
  | nil => rfl
  | cons x conts ih =>
      have hnot : ¬ String.utf8EncodeChar replacement <+: x :: (conts ++ rest) := by
        intro hstarts
        have hbytes : String.utf8EncodeChar replacement = [0xEF, 0xBF, 0xBD] := by decide
        rw [hbytes, List.cons_prefix_cons] at hstarts
        have hx := (h x List.mem_cons_self).2
        rw [← hstarts.1] at hx
        exact absurd hx (by decide)
      rw [List.cons_append, replacements_cons, if_neg hnot, Nat.add_zero,
        ih fun y hy => h y (List.mem_cons_of_mem x hy)]

/-- **A segment has the bytes of U+FFFD where it starts**, or not at all. -/
theorem replacements_append {part : Bytes} (hnil : part ≠ []) (h : Begins part ∨ ∃ b, part = [b])
    (rest : Bytes) :
    replacements (part ++ rest) =
      replacements rest + if String.utf8EncodeChar replacement <+: part ++ rest then 1 else 0 := by
  obtain ⟨b, conts, rfl⟩ := List.exists_cons_of_ne_nil hnil
  have hconts : ∀ x ∈ conts, Continues x := by
    rcases h with ⟨c, more, hmore⟩ | ⟨b', hb'⟩
    · intro x hx
      exact continues_of_mem_tail hmore.symm x (List.mem_append_left more hx)
    · rw [(List.cons.inj hb').2]
      exact List.forall_mem_nil _
  rw [List.cons_append, replacements_cons, replacements_append_of_continues hconts]

theorem replacement_prefix_iff {c : Char} :
    String.utf8EncodeChar replacement <+: String.utf8EncodeChar c ++ rest ↔ c = replacement := by
  constructor
  · intro hstarts
    rcases List.prefix_or_prefix_of_prefix hstarts (List.prefix_append _ rest) with h | h
    · exact (eq_of_prefix_utf8EncodeChar h).symm
    · exact eq_of_prefix_utf8EncodeChar h
  · rintro rfl
    exact List.prefix_append _ rest

/-- **A U+FFFD that is read has been there or stands for a maximal prefix.** -/
theorem Segmented.count_eq (h : Segmented bytes segments) :
    (segments.map Segment.char).count replacement =
      replacements bytes + segments.countP Segment.isBroken := by
  induction h with
  | nil => rfl
  | @whole rest segments c _ ih =>
      have hbegins : Begins (String.utf8EncodeChar c) := ⟨c, List.prefix_rfl⟩
      rw [replacements_append (utf8EncodeChar_ne_nil c) (Or.inl hbegins), List.map_cons,
        List.count_cons, List.countP_cons, ih]
      simp only [replacement_prefix_iff, Segment.char, Segment.isBroken, beq_iff_eq,
        Bool.false_eq_true, if_false]
      omega
  | @broken part rest segments hpart _ ih =>
      rw [replacements_append hpart.ne_nil hpart.begins, if_neg (hpart.unreadable replacement),
        List.map_cons, List.count_cons, List.countP_cons, ih]
      simp only [Segment.char, Segment.isBroken, beq_self_eq_true, if_true]
      omega

end

/-! ## Decoding -/

theorem decode_cons_of_lt {b : UInt8} (hb : b.toNat < 0x80) (rest : Bytes) :
    decode (b :: rest) = String.singleton (Char.ofNat b.toNat) ++ decode rest := by
  have hbytes : String.utf8EncodeChar (Char.ofNat b.toNat) = [b] := by
    have hone := Encodes.utf8EncodeChar_eq (.one hb) (Or.inl (by omega))
    rwa [UInt8.ofNat_toNat] at hone
  have hread := decodeFrom_utf8EncodeChar (Char.ofNat b.toNat) rest
  rw [hbytes, List.singleton_append] at hread
  rw [decode, hread, ← List.singleton_append, String.ofList_append]
  rfl

theorem decode_encode_append (text : String) (rest : Bytes) :
    decode (encode text ++ rest) = text ++ decode rest := by
  rw [decode, encode, decodeFrom_flatMap, String.ofList_append, String.ofList_toList]
  rfl

/-- **What decoding any bytes does.** It gives back every text, and what it has read once it reads again.
It can be done in two parts in front of a byte that does not go on with a sequence, behind well-formed
bytes, and around every byte below 0x80. The bytes fall into segments in one way, and each of them is
read as one character: a maximal prefix of an ill-formed sequence as one U+FFFD. So there are more of
these than the bytes hold if and only if the bytes are not well formed. -/
theorem decode_by_segments (bytes : Bytes) :
    (∀ text, decode (encode text) = text) ∧
    decode (encode (decode bytes)) = decode bytes ∧
    (∀ rest, (∀ b ∈ rest.head?, ¬ Continues b) ∨ WellFormed bytes →
      decode (bytes ++ rest) = decode bytes ++ decode rest) ∧
    (∀ b rest, b.toNat < 0x80 → decode (bytes ++ b :: rest) =
      decode bytes ++ (String.singleton (Char.ofNat b.toNat) ++ decode rest)) ∧
    ∃ segments, (∀ others, Segmented bytes others ↔ others = segments) ∧
      (decode bytes).toList = segments.map Segment.char ∧
      (decode bytes).toList.count replacement =
        replacements bytes + segments.countP Segment.isBroken ∧
      (replacements bytes < (decode bytes).toList.count replacement ↔ ¬ WellFormed bytes) := by
  obtain ⟨⟨segments, hsegments, hread⟩, -⟩ := exists_segmented bytes
  have hchars : (decode bytes).toList = segments.map Segment.char := by
    rw [decode, String.toList_ofList, hread]
  have hcount : (decode bytes).toList.count replacement =
      replacements bytes + segments.countP Segment.isBroken := by
    rw [hchars, hsegments.count_eq]
  refine ⟨decode_encode, decode_encode _, ?_, ?_, segments, ?_, hchars, hcount, ?_⟩
  · rintro rest (hrest | ⟨text, rfl⟩)
    · exact decode_append hrest
    · rw [decode_encode_append, decode_encode]
  · intro b rest hb
    have hstart : ∀ b' ∈ (b :: rest).head?, ¬ Continues b' := by
      rintro b' ⟨⟩ hb'
      exact absurd hb'.1 (Nat.not_le_of_lt hb)
    rw [decode_append hstart, decode_cons_of_lt hb]
  · intro others
    refine ⟨fun h => h.unique hsegments, ?_⟩
    rintro rfl
    exact hsegments
  · rw [hcount, hsegments.wellFormed_iff, Nat.lt_add_right_iff_pos, List.countP_pos_iff]
    simp

/-- A character of which the last byte is missing, in front of a parenthesis, and a byte that goes on with
no sequence behind well-formed bytes. -/
theorem decode_by_segments_sample :
    decode ([0x61, 0xE2, 0x82] ++ [0x28, 0xBD]) = "a\uFFFD" ++ decode [0x28, 0xBD] ∧
    decode (encode "é" ++ [0x82]) = "é" ++ decode [0x82] ∧
    decode ([0x61, 0xE2, 0x82] ++ 0x28 :: [0xBD]) = "a\uFFFD" ++ ("(" ++ decode [0xBD]) ∧
    replacements [0x61, 0xE2, 0x82] < (decode [0x61, 0xE2, 0x82]).toList.count replacement := by
  obtain ⟨htext, -, htwo, -, -⟩ := decode_by_segments (encode "é")
  obtain ⟨-, -, hcut, hascii, -, -, -, -, hill⟩ := decode_by_segments [0x61, 0xE2, 0x82]
  have hread : decode [0x61, 0xE2, 0x82] = "a\uFFFD" := by decide
  have hstart : ∀ b ∈ ([0x28, 0xBD] : Bytes).head?, ¬ Continues b := by
    rintro b ⟨⟩ ⟨hlow, -⟩
    exact absurd hlow (by decide)
  have hnot : ¬ WellFormed [0x61, 0xE2, 0x82] := by
    rintro ⟨text, htext⟩
    have hsame := decode_encode text
    rw [htext, hread] at hsame
    rw [← hsame] at htext
    exact absurd htext (by decide)
  refine ⟨?_, ?_, ?_, hill.mpr hnot⟩
  · rw [hcut [0x28, 0xBD] (Or.inl hstart), hread]
  · rw [htwo [0x82] (Or.inr ⟨"é", rfl⟩), htext]
  · rw [hascii 0x28 [0xBD] (by decide), hread]
    rfl

/-- A form that is too long, a surrogate and a value above U+10FFFF are cut behind their first byte, a
character without its last byte is cut at its end. -/
example : decode [0xE0, 0x80, 0x80] = "\uFFFD\uFFFD\uFFFD" ∧
    decode [0xED, 0xA0, 0x80] = "\uFFFD\uFFFD\uFFFD" ∧
    decode [0xF4, 0x90, 0x80, 0x80] = "\uFFFD\uFFFD\uFFFD\uFFFD" ∧
    decode [0xF0, 0x9F, 0x98] = "\uFFFD" := by
  decide

end Utf8

end Conformance
