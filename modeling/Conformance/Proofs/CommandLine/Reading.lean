import Conformance.Proofs.CommandLine.Grammar
import Conformance.Proofs.Text.Utf8

set_option autoImplicit false

/-! # Reading follows the grammar

The reader of command lines accepts exactly what the grammar derives, and reads off it what the
items say (`CommandLine.parse_eq_ok_iff_derives`). So the order of the options and the way in which
their values are given do not matter.

The reader looks at the value of an option, or at a path, only when it goes on to something else.
What is pending is therefore counted in: `CommandLine.Stands` says what has been found once it has
been looked at, and `CommandLine.Reads` what will have been found after some more words. One item
adds to it what the item takes (`Item.Spelled.reads_iff`), and so do all items of a derivation
(`Derives.reads_iff`). Conversely every word of a command line that is read begins an item
(`CommandLine.first_cases`), so that there is a derivation (`CommandLine.exists_derives`).
-/

namespace Conformance

/-! ## Words -/

theorem Utf8.decode?_eq_some_iff {bytes : Bytes} {text : String} :
    Utf8.decode? bytes = some text ↔ bytes = Utf8.encode text := by
  constructor
  · intro h
    simp only [Utf8.decode?] at h
    split at h
    · next heq =>
      cases h
      exact heq.symm
    · cases h
  · rintro rfl
    exact Utf8.decode?_encode text

theorem ColorChoice.parse?_eq_some_iff {value : Bytes} {choice : ColorChoice} :
    ColorChoice.parse? value = some choice ↔ value = Utf8.encode choice.word := by
  constructor
  · intro h
    unfold ColorChoice.parse? at h
    repeat' split at h
    all_goals cases h
    all_goals assumption
  · rintro rfl
    cases choice <;> decide

namespace LongName

/-- The word that a name is. -/
def word : LongName → String
  | .option o => o.word
  | .flag .json => "json"
  | .flag .help => "help"
  | .flag .version => "version"

theorem find?_eq_some_iff {word : Bytes} {name : LongName} :
    find? word = some name ↔ word = Utf8.encode name.word := by
  constructor
  · intro h
    obtain ⟨entry, hfind, hname⟩ := Option.map_eq_some_iff.mp h
    have hword : Utf8.encode entry.1 = word := by simpa using List.find?_some hfind
    have hmem := List.mem_of_find?_eq_some hfind
    simp only [table, List.mem_cons, List.not_mem_nil, or_false] at hmem
    rw [← hword, ← hname]
    rcases hmem with rfl | rfl | rfl | rfl | rfl | rfl <;> rfl
  · rintro rfl
    rcases name with (_ | _ | _) | (_ | _ | _) <;> decide

end LongName

namespace CommandLine

open Scan (hyphen equals)

/-! ## One word -/

section

variable {s : Scan} {word : Bytes}

theorem read_plain (hs : s.pathsOnly = false) (h : Plain word) :
    s.read word = s.readPlain word := by
  unfold Scan.read
  rw [if_neg (by simp [hs])]
  match word with
  | [] => rfl
  | [_] => rfl
  | first :: second :: rest =>
      have hfirst : first ≠ hyphen := by
        rintro rfl
        cases h rfl
      exact if_neg hfirst

/-- A word that starts with two hyphens, and has more than these. -/
theorem read_long (hs : s.pathsOnly = false) (h : word ≠ []) :
    s.read (hyphen :: hyphen :: word) = s.readLong word := by
  simp [Scan.read, hs, h]

theorem cons_cons_encode (text : String) :
    hyphen :: hyphen :: Utf8.encode text = Utf8.encode ("--" ++ text) := by
  rw [Utf8.encode_append]
  rfl

theorem cons_cons_encode_attached (o : ValueOption) (text : String) :
    hyphen :: hyphen :: (Utf8.encode o.word ++ equals :: Utf8.encode text) =
      Utf8.encode ("--" ++ o.word ++ "=" ++ text) := by
  simp only [Utf8.encode_append, List.append_assoc]
  rfl

theorem readLong_name (name : LongName) :
    s.readLong (Utf8.encode name.word) =
      match name with
      | .option o => s.settle.map fun s => { s with pending := .option o none }
      | .flag f => s.readFlag f := by
  rcases name with (_ | _ | _) | (_ | _ | _) <;> rfl

theorem readLong_attached (o : ValueOption) (value : Bytes) :
    s.readLong (Utf8.encode o.word ++ equals :: value) = do
      let s ← s.settle
      let found ← s.found.setOption o (some value)
      return { s with found := found } := by
  cases o <;> rfl

end

/-! ## What has been found -/

/-- **What has been found**, once what is pending has been looked at. -/
def Stands (s : Scan) (x : Sofar) : Prop := s.found.settle s.pending = .ok x.1 ∧ s.next = x.2

/-- **What will have been found** after some more words. -/
def Reads (s : Scan) (words : List Bytes) (x : Sofar) : Prop :=
  ∃ s', s.readAll words = .ok s' ∧ Stands s' x

/-- No option waits for its value. -/
def Complete (s : Scan) : Prop := ∀ o, s.pending ≠ .option o none

section

variable {s s' : Scan}

/-- What is pending is in order, or it is not. -/
theorem settle_cases (s : Scan) :
    (∃ e, s.settle = .error e ∧ ∀ x, ¬ Stands s x) ∨
      ∃ f, s.settle = .ok { s with found := f, pending := .nothing } ∧
        ∀ x, Stands s x ↔ x = (f, s.next) := by
  unfold Scan.settle Stands
  cases h : s.found.settle s.pending with
  | error e => exact Or.inl ⟨e, rfl, fun x hx => by cases hx.1⟩
  | ok f =>
      refine Or.inr ⟨f, rfl, fun ⟨f', next⟩ => ?_⟩
      simp only [Except.ok.injEq, Prod.mk.injEq, eq_comm]

/-- The value of an option is taken if it is a text that means something. -/
theorem setOption_eq_ok_iff {f f' : Found} {o : ValueOption} {value : Bytes}
    (next : Option Slot) :
    f.setOption o (some value) = .ok f' ↔
      ∃ text, value = Utf8.encode text ∧ (Item.option o text).Takes (f, next) (f', next) := by
  constructor
  · intro h
    simp only [Found.setOption] at h
    split at h
    · cases h
    -- An option that was found before is refused, whichever it is.
    · next hhas =>
      cases o with
      | timeout =>
          have hnone : f.timeout = none := by simpa [Found.has] using hhas
          cases htext : Utf8.decode? value with
          | none => simp [htext] at h
          | some text =>
              cases hparse : parseTimeout text with
              | error e => simp [htext, hparse] at h
              | ok d =>
                  simp only [htext, hparse, Except.ok.injEq] at h
                  exact ⟨text, Utf8.decode?_eq_some_iff.mp htext, h ▸ .timeout hnone hparse⟩
      | extension =>
          have hnone : f.extension = none := by simpa [Found.has] using hhas
          cases htext : Utf8.decode? value with
          | none => simp [htext] at h
          | some text =>
              simp only [htext, Except.ok.injEq] at h
              exact ⟨text, Utf8.decode?_eq_some_iff.mp htext, h ▸ .extension text hnone⟩
      | color =>
          have hnone : f.color = none := by simpa [Found.has] using hhas
          cases hchoice : ColorChoice.parse? value with
          | none => simp [hchoice] at h
          | some choice =>
              simp only [hchoice, Except.ok.injEq] at h
              exact ⟨choice.word, ColorChoice.parse?_eq_some_iff.mp hchoice,
                h ▸ .color choice hnone⟩
  · rintro ⟨text, rfl, h⟩
    cases h with
    | timeout hnone hparse =>
        simp [Found.setOption, Found.has, hnone, Utf8.decode?_encode, hparse]
    | extension text hnone => simp [Found.setOption, Found.has, hnone, Utf8.decode?_encode]
    | color choice hnone =>
        simp [Found.setOption, Found.has, hnone, ColorChoice.parse?_eq_some_iff.mpr rfl]

theorem setOption_encode_iff {f f' : Found} {o : ValueOption} {text : String}
    (next : Option Slot) :
    f.setOption o (some (Utf8.encode text)) = .ok f' ↔
      (Item.option o text).Takes (f, next) (f', next) := by
  rw [setOption_eq_ok_iff next]
  constructor
  · rintro ⟨text', heq, h⟩
    rwa [← Utf8.decode_encode text, heq, Utf8.decode_encode]
  · exact fun h => ⟨text, rfl, h⟩

/-- An option leaves the paths alone. -/
theorem Item.Takes.next_eq {f f' : Found} {next next' : Option Slot} {o : ValueOption}
    {text : String} (h : (Item.option o text).Takes (f, next) (f', next')) : next' = next := by
  cases h <;> rfl

theorem setPath_eq_ok_iff {f f' : Found} {slot : Slot} {word : Bytes} :
    f.setPath slot word = .ok f' ↔ word ≠ [] ∧ place f ⟨word⟩ slot = f' := by
  unfold Found.setPath
  by_cases hnil : word = []
  · simp [hnil]
  · cases slot <;> simp [hnil, place]

/-! ### What the words of an item do -/

theorem readFlag_eq_ok_iff {flag : Flag} :
    s.readFlag flag = .ok s' ↔ ∃ f, Stands s (f, s.next) ∧ flag = .json ∧ f.json = false ∧
      s' = { s with found := { f with json := true }, pending := .nothing } := by
  rcases settle_cases s with ⟨e, hsettle, hstands⟩ | ⟨f, hsettle, hstands⟩
  · simp [Scan.readFlag, hsettle, hstands, bind, Except.bind]
  · have hread : s.readFlag flag = (f.setFlag flag).map fun found =>
        { s with found := found, pending := .nothing } := by
      rw [Scan.readFlag, hsettle]
      simp only [bind, Except.bind, pure, Except.pure]
      cases f.setFlag flag <;> rfl
    rw [hread]
    cases flag with
    | help => simp [Found.setFlag, Except.map]
    | version => simp [Found.setFlag, Except.map]
    | json =>
        cases hjson : f.json with
        | true => simp [Found.setFlag, Except.map, hjson, hstands]
        | false =>
            simp only [Found.setFlag, hjson, Bool.false_eq_true, if_false, Except.map, hstands]
            constructor
            · rintro ⟨⟩
              exact ⟨f, rfl, trivial, hjson, rfl⟩
            · rintro ⟨_, ⟨⟩, -, -, rfl⟩
              rfl

theorem readPath_eq_ok_iff {word : Bytes} :
    s.readPath word = .ok s' ↔ ∃ f slot, Stands s (f, s.next) ∧ s.next = some slot ∧
      s' = { s with found := f, pending := .path slot word, next := slot.next } := by
  unfold Scan.readPath
  rcases settle_cases s with ⟨e, hsettle, hstands⟩ | ⟨f, hsettle, hstands⟩
  · cases s.next <;> simp [hsettle, hstands, Except.map]
  · cases hnext : s.next <;> simp [hsettle, hstands, Except.map, hnext, eq_comm]

theorem readLong_option_eq_ok_iff {o : ValueOption} :
    s.readLong (Utf8.encode o.word) = .ok s' ↔ ∃ f, Stands s (f, s.next) ∧
      s' = { s with found := f, pending := .option o none } := by
  have hread := readLong_name (s := s) (.option o)
  rw [LongName.word] at hread
  rw [hread]
  rcases settle_cases s with ⟨e, hsettle, hstands⟩ | ⟨f, hsettle, hstands⟩
  · simp [hsettle, hstands, Except.map]
  · simp [hsettle, hstands, Except.map, eq_comm]

theorem readLong_attached_eq_ok_iff {o : ValueOption} {value : Bytes} :
    s.readLong (Utf8.encode o.word ++ equals :: value) = .ok s' ↔
      ∃ f f', Stands s (f, s.next) ∧ f.setOption o (some value) = .ok f' ∧
        s' = { s with found := f', pending := .nothing } := by
  rw [readLong_attached]
  rcases settle_cases s with ⟨e, hsettle, hstands⟩ | ⟨f, hsettle, hstands⟩
  · simp [hsettle, hstands, bind, Except.bind]
  · cases hset : f.setOption o (some value) <;>
      simp [hsettle, hstands, bind, Except.bind, hset, pure, Except.pure, eq_comm]

theorem readAll_append (words rest : List Bytes) :
    s.readAll (words ++ rest) = .ok s' ↔
      ∃ s₁, s.readAll words = .ok s₁ ∧ s₁.readAll rest = .ok s' := by
  induction words generalizing s with
  | nil => simp [Scan.readAll]
  | cons word words ih =>
      simp only [List.cons_append, Scan.readAll]
      cases s.read word with
      | error e => simp
      | ok s₁ => exact ih

theorem reads_append {words rest : List Bytes} {x : Sofar} :
    Reads s (words ++ rest) x ↔ ∃ s₁, s.readAll words = .ok s₁ ∧ Reads s₁ rest x := by
  simp only [Reads, readAll_append]
  constructor
  · rintro ⟨s', ⟨s₁, hwords, hrest⟩, hx⟩
    exact ⟨s₁, hwords, s', hrest, hx⟩
  · rintro ⟨s₁, hwords, s', hrest, hx⟩
    exact ⟨s', ⟨s₁, hwords, hrest⟩, hx⟩

theorem readAll_singleton (word : Bytes) : s.readAll [word] = s.read word := by
  rw [Scan.readAll]
  cases s.read word <;> rfl

theorem readAll_json_iff (hoptions : s.pathsOnly = false) :
    s.readAll [Utf8.encode "--json"] = .ok s' ↔ ∃ f, Stands s (f, s.next) ∧ f.json = false ∧
      s' = { s with found := { f with json := true }, pending := .nothing } := by
  have hword : Utf8.encode "--json" = hyphen :: hyphen :: Utf8.encode "json" :=
    (cons_cons_encode "json").symm
  rw [readAll_singleton, hword, read_long hoptions (by decide)]
  refine Iff.trans (Eq.congr_left (readLong_name (.flag .json))) (readFlag_eq_ok_iff.trans ?_)
  simp

theorem readAll_attached_iff (hoptions : s.pathsOnly = false) {o : ValueOption} {text : String} :
    s.readAll [Utf8.encode ("--" ++ o.word ++ "=" ++ text)] = .ok s' ↔
      ∃ f f', Stands s (f, s.next) ∧ f.setOption o (some (Utf8.encode text)) = .ok f' ∧
        s' = { s with found := f', pending := .nothing } := by
  rw [readAll_singleton, ← cons_cons_encode_attached, read_long hoptions (by simp)]
  exact readLong_attached_eq_ok_iff

theorem readAll_separate_iff (hoptions : s.pathsOnly = false) {o : ValueOption} {value : Bytes}
    (hvalue : Plain value) :
    s.readAll [Utf8.encode ("--" ++ o.word), value] = .ok s' ↔ ∃ f, Stands s (f, s.next) ∧
      s' = { s with found := f, pending := .option o (some value) } := by
  have hne : Utf8.encode o.word ≠ [] := by cases o <;> decide
  have hread : s.read (Utf8.encode ("--" ++ o.word)) = s.readLong (Utf8.encode o.word) := by
    rw [← cons_cons_encode, read_long hoptions hne]
  have hlast : ∀ f : Found, Scan.readAll { s with found := f, pending := .option o none } [value] =
      .ok { s with found := f, pending := .option o (some value) } := by
    intro f
    rw [readAll_singleton]
    refine (read_plain ?_ hvalue).trans rfl
    exact hoptions
  rw [← List.singleton_append, readAll_append, readAll_singleton, hread]
  simp only [readLong_option_eq_ok_iff]
  constructor
  · rintro ⟨_, ⟨f, hf, rfl⟩, h⟩
    rw [hlast] at h
    exact ⟨f, hf, (Except.ok.inj h).symm⟩
  · rintro ⟨f, hf, rfl⟩
    exact ⟨_, ⟨f, hf, rfl⟩, hlast f⟩

theorem readAll_path (hoptions : s.pathsOnly = false) (hs : Complete s) {word : Bytes}
    (hword : Plain word) : s.readAll [word] = s.readPath word := by
  have hplain : s.readPlain word = s.readPath word := by
    unfold Scan.readPlain
    split
    · next o hpending => exact absurd hpending (hs o)
    · rfl
  rw [readAll_singleton, read_plain hoptions hword, hplain]

/-! ### What an item adds -/

/-- An option whose value is pending is about to be set. -/
theorem stands_option_iff {f f' : Found} {o : ValueOption} {value : Option Bytes}
    {next' : Option Slot} :
    Stands { s with found := f, pending := .option o value } (f', next') ↔
      f.setOption o value = .ok f' ∧ s.next = next' := by
  rw [Stands, Found.settle]

theorem readPath_stands_iff {word : Bytes} {x : Sofar} :
    (∃ s', s.readPath word = .ok s' ∧ Stands s' x) ↔
      ∃ y, Stands s y ∧ (Item.path word).Takes y x := by
  simp only [readPath_eq_ok_iff]
  constructor
  · rintro ⟨_, ⟨f, slot, hf, hnext, rfl⟩, hset, hx⟩
    obtain ⟨f', next'⟩ := x
    obtain rfl : slot.next = next' := hx
    obtain ⟨hne, rfl⟩ := setPath_eq_ok_iff.mp hset
    exact ⟨_, hf, hnext ▸ .path hne⟩
  · rintro ⟨⟨f, next⟩, ⟨hf, hnext⟩, hitem⟩
    cases hitem with
    | @path _ slot _ hne =>
        refine ⟨_, ⟨f, slot, ⟨hf, rfl⟩, hnext, rfl⟩, ?_, rfl⟩
        exact setPath_eq_ok_iff.mpr ⟨hne, rfl⟩

/-- **The words of an item add what the item takes**, if the state allows it. -/
theorem Item.Spelled.reads_iff {item : Item} {words : List Bytes} (h : item.Spelled words)
    (hoptions : s.pathsOnly = false) (hs : Complete s) {x : Sofar} :
    Reads s words x ↔ ∃ y, Stands s y ∧ item.Takes y x := by
  obtain ⟨f', next'⟩ := x
  unfold Reads
  -- Read from left to right each case tells what the words do, and from right to left that an item
  -- which is taken keeps nothing from being read.
  cases h with
  | json =>
      simp only [readAll_json_iff hoptions]
      constructor
      · rintro ⟨_, ⟨f, hf, hjson, rfl⟩, ⟨⟩, rfl⟩
        exact ⟨_, hf, .json hjson⟩
      · rintro ⟨⟨f, next⟩, ⟨hf, rfl⟩, hitem⟩
        cases hitem with
        | json hjson =>
            have hstands : Stands s (f, s.next) := ⟨hf, rfl⟩
            exact ⟨_, ⟨f, hstands, hjson, rfl⟩, rfl, rfl⟩
  | attached o text =>
      simp only [readAll_attached_iff hoptions, setOption_encode_iff s.next]
      constructor
      · rintro ⟨_, ⟨f, _, hf, hitem, rfl⟩, ⟨⟩, rfl⟩
        exact ⟨_, hf, hitem⟩
      · rintro ⟨⟨f, next⟩, ⟨hf, rfl⟩, hitem⟩
        obtain rfl := hitem.next_eq
        have hstands : Stands s (f, s.next) := ⟨hf, rfl⟩
        exact ⟨_, ⟨f, f', hstands, hitem, rfl⟩, rfl, rfl⟩
  | separate o hplain =>
      simp only [readAll_separate_iff hoptions hplain]
      constructor
      · rintro ⟨_, ⟨f, hf, rfl⟩, hafter⟩
        obtain ⟨hset, rfl⟩ := stands_option_iff.mp hafter
        exact ⟨_, hf, (setOption_encode_iff s.next).mp hset⟩
      · rintro ⟨⟨f, next⟩, ⟨hf, rfl⟩, hitem⟩
        obtain rfl := hitem.next_eq
        have hstands : Stands s (f, s.next) := ⟨hf, rfl⟩
        have hset := (setOption_encode_iff s.next).mpr hitem
        exact ⟨_, ⟨f, hstands, rfl⟩, stands_option_iff.mpr ⟨hset, rfl⟩⟩
  | path hplain =>
      simp only [readAll_path hoptions hs hplain]
      exact readPath_stands_iff

theorem Item.Spelled.complete {item : Item} {words : List Bytes} (h : item.Spelled words)
    (hoptions : s.pathsOnly = false) (hs : Complete s) (hread : s.readAll words = .ok s') :
    s'.pathsOnly = false ∧ Complete s' := by
  cases h with
  | json =>
      obtain ⟨f, -, -, rfl⟩ := (readAll_json_iff hoptions).mp hread
      exact ⟨hoptions, nofun⟩
  | attached o text =>
      obtain ⟨f, f', -, -, rfl⟩ := (readAll_attached_iff hoptions).mp hread
      exact ⟨hoptions, nofun⟩
  | separate o hplain =>
      obtain ⟨f, -, rfl⟩ := (readAll_separate_iff hoptions hplain).mp hread
      exact ⟨hoptions, nofun⟩
  | path hplain =>
      rw [readAll_path hoptions hs hplain] at hread
      obtain ⟨f, slot, -, -, rfl⟩ := readPath_eq_ok_iff.mp hread
      exact ⟨hoptions, nofun⟩

/-! ### What a derivation adds -/

theorem reads_paths_iff (words : List Bytes) (hpaths : s.pathsOnly = true) {x : Sofar} :
    Reads s words x ↔ ∃ y, Stands s y ∧ TakesAll (words.map .path) y x := by
  induction words generalizing s with
  | nil =>
      constructor
      · rintro ⟨_, ⟨⟩, hx⟩
        exact ⟨x, hx, .nil x⟩
      · rintro ⟨y, hy, ⟨⟩⟩
        exact ⟨s, rfl, hy⟩
  | cons word words ih =>
      have hread : s.readAll [word] = s.readPath word := by
        rw [readAll_singleton]
        unfold Scan.read
        exact if_pos hpaths
      have hafter : ∀ s₁, s.readPath word = .ok s₁ → s₁.pathsOnly = true := by
        intro s₁ h
        obtain ⟨f, slot, -, -, rfl⟩ := readPath_eq_ok_iff.mp h
        exact hpaths
      rw [← List.singleton_append, reads_append, hread]
      constructor
      · rintro ⟨s₁, hs₁, hrest⟩
        obtain ⟨y, hy, hall⟩ := (ih (hafter s₁ hs₁)).mp hrest
        obtain ⟨z, hz, hitem⟩ := readPath_stands_iff.mp ⟨s₁, hs₁, hy⟩
        exact ⟨z, hz, .cons hitem hall⟩
      · rintro ⟨z, hz, ⟨⟩ | ⟨hitem, hall⟩⟩
        obtain ⟨s₁, hs₁, hy⟩ := readPath_stands_iff.mpr ⟨z, hz, hitem⟩
        exact ⟨s₁, hs₁, (ih (hafter s₁ hs₁)).mpr ⟨_, hy, hall⟩⟩

/-- A lone `--` says that every word behind it is a path. -/
theorem read_hyphens (hoptions : s.pathsOnly = false) :
    s.read (Utf8.encode "--") = .ok { s with pathsOnly := true } := by
  have hword : Utf8.encode "--" = [hyphen, hyphen] := by decide
  simp [hword, Scan.read, hoptions]

/-- **The words of a derivation add what its items take.** -/
theorem Derives.reads_iff {items : List Item} {words : List Bytes} (h : Derives items words)
    (hoptions : s.pathsOnly = false) (hs : Complete s) {x : Sofar} :
    Reads s words x ↔ ∃ y, Stands s y ∧ TakesAll items y x := by
  -- By induction on the derivation. No option waits for its value when an item begins, because the
  -- words of the item before it have brought the value along.
  induction h generalizing s with
  | nil =>
      constructor
      · rintro ⟨_, ⟨⟩, hx⟩
        exact ⟨x, hx, .nil x⟩
      · rintro ⟨y, hy, ⟨⟩⟩
        exact ⟨s, rfl, hy⟩
  | cons hitem _ ih =>
      rw [reads_append]
      constructor
      · rintro ⟨s₁, hs₁, hrest⟩
        obtain ⟨hoptions₁, hcomplete₁⟩ := hitem.complete hoptions hs hs₁
        obtain ⟨y, hy, hall⟩ := (ih hoptions₁ hcomplete₁).mp hrest
        obtain ⟨z, hz, htakes⟩ := (hitem.reads_iff hoptions hs).mp ⟨s₁, hs₁, hy⟩
        exact ⟨z, hz, .cons htakes hall⟩
      · rintro ⟨z, hz, ⟨⟩ | ⟨htakes, hall⟩⟩
        obtain ⟨s₁, hs₁, hy⟩ := (hitem.reads_iff hoptions hs).mpr ⟨z, hz, htakes⟩
        obtain ⟨hoptions₁, hcomplete₁⟩ := hitem.complete hoptions hs hs₁
        exact ⟨s₁, hs₁, (ih hoptions₁ hcomplete₁).mpr ⟨_, hy, hall⟩⟩
  | paths words =>
      have hread : Reads s (Utf8.encode "--" :: words) x ↔
          Reads { s with pathsOnly := true } words x := by
        rw [← List.singleton_append, reads_append, readAll_singleton, read_hyphens hoptions]
        simp
      rw [hread, reads_paths_iff words rfl]
      exact Iff.rfl

/-! ### Every command line that is read is derived -/

/-- A word that is not plain starts with a hyphen, and has more than that. -/
theorem exists_of_not_plain {word : Bytes} (h : ¬ Plain word) :
    ∃ second more, word = hyphen :: second :: more := by
  match word with
  | [] => exact absurd nofun h
  | [_] =>
      refine absurd (fun hhead => ?_) h
      cases hhead
      rfl
  | first :: second :: more =>
      obtain ⟨hhead, -⟩ := Classical.not_imp.mp h
      cases hhead
      exact ⟨second, more, rfl⟩

theorem readLong_cases {word : Bytes} (h : s.readLong word = .ok s') :
    (∃ o value, word = Utf8.encode (ValueOption.word o) ++ equals :: value) ∨
      ∃ name : LongName, word = Utf8.encode name.word := by
  have hsplit : word.takeWhile (· ≠ equals) ++ word.dropWhile (· ≠ equals) = word :=
    List.takeWhile_append_dropWhile
  have hhead := List.head?_dropWhile_not (· ≠ equals) word
  simp only [Scan.readLong] at h
  cases hname : LongName.find? (word.takeWhile (· ≠ equals)) with
  | none =>
      rw [hname] at h
      cases h
  | some name =>
      rw [LongName.find?_eq_some_iff.mp hname] at hsplit
      cases hvalue : word.dropWhile (· ≠ equals) with
      | nil =>
          rw [hvalue, List.append_nil] at hsplit
          exact Or.inr ⟨name, hsplit.symm⟩
      | cons b value =>
          -- The name ends where the first equals sign is.
          rw [hvalue] at hsplit hhead
          obtain rfl : b = equals := by simpa using hhead
          cases name with
          | option o => exact Or.inl ⟨o, value, hsplit.symm⟩
          | flag f =>
              rw [hname, hvalue] at h
              cases h

/-- Behind one hyphen nothing is read that lets the reading go on. -/
theorem readShort_ne_ok (letter : UInt8) : s.readShort letter ≠ .ok s' := by
  intro h
  unfold Scan.readShort at h
  split at h
  · obtain ⟨-, -, hflag, -⟩ := readFlag_eq_ok_iff.mp h
    cases hflag
  · split at h
    · obtain ⟨-, -, hflag, -⟩ := readFlag_eq_ok_iff.mp h
      cases hflag
    · cases h

/-- **What a word that is not plain can be**, if it is read: the end of the options, an option with
a value attached to it, or a name. -/
theorem read_cases {word : Bytes} (hoptions : s.pathsOnly = false) (hword : ¬ Plain word)
    (hread : s.read word = .ok s') :
    word = Utf8.encode "--" ∨
      (∃ o value, word = hyphen :: hyphen :: (Utf8.encode (ValueOption.word o) ++ equals :: value) ∧
        s.readLong (Utf8.encode o.word ++ equals :: value) = .ok s') ∨
      ∃ name : LongName, word = hyphen :: hyphen :: Utf8.encode name.word ∧
        s.readLong (Utf8.encode name.word) = .ok s' := by
  obtain ⟨second, more, rfl⟩ := exists_of_not_plain hword
  by_cases hsecond : second = hyphen
  · subst hsecond
    by_cases hmore : more = []
    · subst hmore
      exact Or.inl (by decide)
    · rw [read_long hoptions hmore] at hread
      rcases readLong_cases hread with ⟨o, value, rfl⟩ | ⟨name, rfl⟩
      · exact Or.inr (Or.inl ⟨o, value, rfl, hread⟩)
      · exact Or.inr (Or.inr ⟨name, rfl, hread⟩)
  · have hshort : s.read (hyphen :: second :: more) = s.readShort second := by
      simp [Scan.read, hoptions, hsecond]
    exact absurd (hshort.symm.trans hread) (readShort_ne_ok second)

/-- An option that waits for its value gets it from a plain word only. -/
theorem not_reads_of_waiting {o : ValueOption} (hoptions : s.pathsOnly = false)
    (hwaits : s.pending = .option o none) {word : Bytes} (hword : ¬ Plain word)
    (rest : List Bytes) (x : Sofar) : ¬ Reads s (word :: rest) x := by
  -- Whatever else is read has the pending option looked at, which has no value.
  have hstands : ∀ y, ¬ Stands s y := by
    rintro y ⟨hy, -⟩
    rw [hwaits] at hy
    cases hy
  rw [← List.singleton_append, reads_append, readAll_singleton]
  rintro ⟨s₁, hread, hrest⟩
  rcases read_cases hoptions hword hread with rfl | ⟨o', value, -, hlong⟩ | ⟨o' | f, -, hlong⟩
  · cases (read_hyphens hoptions).symm.trans hread
    obtain ⟨y, hy, -⟩ := (reads_paths_iff rest rfl).mp hrest
    exact hstands y hy
  · obtain ⟨f, -, hf, -⟩ := readLong_attached_eq_ok_iff.mp hlong
    exact hstands _ hf
  · obtain ⟨f, hf, -⟩ := readLong_option_eq_ok_iff.mp hlong
    exact hstands _ hf
  · rw [readLong_name] at hlong
    obtain ⟨f, hf, -⟩ := readFlag_eq_ok_iff.mp hlong
    exact hstands _ hf

/-- **What comes first** in a command line that is read to its end. -/
theorem first_cases {word : Bytes} {rest : List Bytes} {x : Sofar} (hoptions : s.pathsOnly = false)
    (h : Reads s (word :: rest) x) :
    word = Utf8.encode "--" ∨ (∃ item : Item, item.Spelled [word]) ∨
      ∃ o value others, word = Utf8.encode ("--" ++ ValueOption.word o) ∧
        rest = value :: others ∧ Plain value := by
  rw [← List.singleton_append, reads_append, readAll_singleton] at h
  obtain ⟨s₁, hread, hrest⟩ := h
  by_cases hword : Plain word
  · exact Or.inr (Or.inl ⟨_, .path hword⟩)
  · rcases read_cases hoptions hword hread with rfl | ⟨o, value, rfl, hlong⟩ | ⟨o | f, rfl, hlong⟩
    · exact Or.inl rfl
    · obtain ⟨f, f', -, hset, -⟩ := readLong_attached_eq_ok_iff.mp hlong
      obtain ⟨text, rfl, -⟩ := (setOption_eq_ok_iff none).mp hset
      rw [cons_cons_encode_attached]
      exact Or.inr (Or.inl ⟨_, .attached o text⟩)
    · obtain ⟨f, -, rfl⟩ := readLong_option_eq_ok_iff.mp hlong
      rw [LongName.word, cons_cons_encode]
      cases rest with
      | nil =>
          obtain ⟨_, ⟨⟩, hwaits, -⟩ := hrest
          cases hwaits
      | cons value others =>
          refine Or.inr (Or.inr ⟨o, value, others, rfl, rfl, ?_⟩)
          by_contra hvalue
          refine not_reads_of_waiting (o := o) ?_ ?_ hvalue others x hrest
          · exact hoptions
          · rfl
    · rw [readLong_name] at hlong
      obtain ⟨-, -, rfl, -⟩ := readFlag_eq_ok_iff.mp hlong
      exact Or.inr (Or.inl ⟨_, .json⟩)

/-- **What is read to the end is derived.** -/
theorem exists_derives {words : List Bytes} {x : Sofar} (hoptions : s.pathsOnly = false)
    (hs : Complete s) (h : Reads s words x) : ∃ items, Derives items words := by
  -- An item takes one word or two, so that what is left is shorter.
  induction hlength : words.length using Nat.strongRecOn generalizing words s with
  | ind length ih =>
      cases words with
      | nil => exact ⟨[], .nil⟩
      | cons word rest =>
          rcases first_cases hoptions h with rfl | ⟨item, hitem⟩ |
            ⟨o, value, others, rfl, rfl, hvalue⟩
          · exact ⟨_, .paths rest⟩
          · rw [← List.singleton_append] at h ⊢
            obtain ⟨s₁, hread, hrest⟩ := reads_append.mp h
            obtain ⟨hoptions₁, hcomplete₁⟩ := hitem.complete hoptions hs hread
            obtain ⟨items, hitems⟩ :=
              ih rest.length (by simp [← hlength]) hoptions₁ hcomplete₁ hrest rfl
            exact ⟨_, .cons hitem hitems⟩
          · obtain ⟨s₁, hread, hrest⟩ := reads_append.mp
              (show Reads s ([Utf8.encode ("--" ++ o.word), value] ++ others) x from h)
            obtain ⟨f, -, hs₁⟩ := (readAll_separate_iff hoptions hvalue).mp hread
            have hoptions₁ : s₁.pathsOnly = false := hs₁ ▸ hoptions
            have hcomplete₁ : Complete s₁ := hs₁ ▸ nofun
            obtain ⟨items, hitems⟩ :=
              ih others.length (by simp [← hlength]) hoptions₁ hcomplete₁ hrest rfl
            -- The value has been looked at when the rest was read, and is text.
            obtain ⟨y, ⟨hset, -⟩, -⟩ := (hitems.reads_iff hoptions₁ hcomplete₁).mp hrest
            rw [hs₁] at hset
            obtain ⟨text, rfl, -⟩ := (setOption_eq_ok_iff none).mp hset
            exact ⟨_, .cons (.separate o hvalue) hitems⟩

/-! ## A whole command line -/

theorem parse_eq_ok_iff_reads {args : List Bytes} {c : Arguments} :
    Arguments.parse args = .ok c ↔
      ∃ x : Sofar, Reads .start args x ∧ x.1.toArguments = .ok c := by
  unfold Arguments.parse Reads
  cases hread : Scan.start.readAll args with
  | error e => simp [bind, Except.bind]
  | ok s =>
      rcases settle_cases s with ⟨e, hsettle, hstands⟩ | ⟨f, hsettle, hstands⟩
      · simp [bind, Except.bind, hsettle, hstands]
      · simp [bind, Except.bind, hsettle, hstands]

theorem stands_start_iff {y : Sofar} : Stands .start y ↔ y = (.nothing, some .root) := by
  obtain ⟨f, next⟩ := y
  simp [Stands, Scan.start, Found.settle, eq_comm]

theorem complete_start : Complete .start := nofun

/-- A command line that is derived says what its items say. -/
theorem Derives.parse_eq_ok_iff {items : List Item} {args : List Bytes} (h : Derives items args)
    {c : Arguments} : Arguments.parse args = .ok c ↔ ReadOff items c := by
  rw [parse_eq_ok_iff_reads, readOff_iff]
  simp only [h.reads_iff (s := .start) rfl complete_start, stands_start_iff]
  constructor
  · rintro ⟨⟨f, next⟩, ⟨_, rfl, htakes⟩, hc⟩
    exact ⟨f, next, htakes, hc⟩
  · rintro ⟨f, next, htakes, hc⟩
    exact ⟨(f, next), ⟨_, rfl, htakes⟩, hc⟩

/-- **The reader accepts what the grammar derives, and reads off it what the items say.** So what
is said in another order, or spelled in another way, is accepted as well and means the same. -/
theorem parse_eq_ok_iff_derives (args : List Bytes) :
    (∀ c, Arguments.parse args = .ok c ↔ ∃ items, Derives items args ∧ ReadOff items c) ∧
      ∀ items items' args', Derives items args → Derives items' args' → items.Perm items' →
        paths items = paths items' →
          ∀ c, Arguments.parse args = .ok c → Arguments.parse args' = .ok c := by
  constructor
  · intro c
    constructor
    · intro hparse
      obtain ⟨x, hreads, -⟩ := parse_eq_ok_iff_reads.mp hparse
      obtain ⟨items, hitems⟩ := exists_derives (s := .start) rfl complete_start hreads
      exact ⟨items, hitems, hitems.parse_eq_ok_iff.mp hparse⟩
    · rintro ⟨items, hitems, hc⟩
      exact hitems.parse_eq_ok_iff.mpr hc
  · intro items items' args' hitems hitems' hperm hpaths c hparse
    exact hitems'.parse_eq_ok_iff.mpr ((hitems.parse_eq_ok_iff.mp hparse).of_perm hperm hpaths)

/-- A command line with a path that starts with a hyphen, and another one that says the same. -/
theorem parse_eq_ok_iff_derives_sample :
    ∃ c, Arguments.parse (["tests", "--extension", ".t", "--color=never", "--json", "--",
        "-lua"].map Utf8.encode) = .ok c ∧
      Arguments.parse (["--json", "--color", "never", "tests", "--extension=.t", "--",
        "-lua"].map Utf8.encode) = .ok c := by
  have hpath : Derives [.path (Utf8.encode "-lua")] (["--", "-lua"].map Utf8.encode) :=
    .paths [Utf8.encode "-lua"]
  have hitems : Derives [.path (Utf8.encode "tests"), .option .extension ".t",
      .option .color "never", .json, .path (Utf8.encode "-lua")]
      (["tests", "--extension", ".t", "--color=never", "--json", "--", "-lua"].map Utf8.encode) :=
    .cons (.path (by decide)) (.cons (.separate .extension (by decide))
      (.cons (.attached .color "never") (.cons .json hpath)))
  have hitems' : Derives [.json, .option .color "never", .path (Utf8.encode "tests"),
      .option .extension ".t", .path (Utf8.encode "-lua")]
      (["--json", "--color", "never", "tests", "--extension=.t", "--", "-lua"].map Utf8.encode) :=
    .cons .json (.cons (.separate .color (by decide)) (.cons (.path (by decide))
      (.cons (.attached .extension ".t") hpath)))
  have hparse : Arguments.parse (["tests", "--extension", ".t", "--color=never", "--json", "--",
      "-lua"].map Utf8.encode) =
      .ok ⟨⟨Utf8.encode "tests"⟩, ⟨Utf8.encode "-lua"⟩, none, ".t", .never, true⟩ := by
    rfl
  exact ⟨_, hparse, (parse_eq_ok_iff_derives _).2 _ _ _ hitems hitems' (by decide) rfl _ hparse⟩

end

end CommandLine

end Conformance
