import Mathlib
import Conformance.Directive
import Conformance.Proofs.Text.Lines
import Conformance.Proofs.Time.Decimal

set_option autoImplicit false

/-! # What the lines of a script say

The language of directives, said without a reader: a line is ignored (`Ignored`), or it is a word with
an argument behind its first space (`Spells`), or with such a word it is no directive (`Bad`). `Exits` is
the directive that ends a script. `Directive.read` finds exactly these meanings, so that every line
has one of them and no line has two.
-/

namespace Conformance

namespace Script

/-- **A line without meaning**: an empty one, or a comment. -/
def Ignored (line : List Char) : Prop :=
  ∃ body, Trimmed line body ∧ (body = [] ∨ ∃ comment, body = '-' :: '-' :: comment)

/-- **A line is a word with an argument.** The word has no space; one space is between the two. -/
def Spells (line : List Char) (word : String) (arg : List Char) : Prop :=
  ∃ body, Trimmed line body ∧ ' ' ∉ word.toList ∧
    (body = word.toList ∧ arg = [] ∨ body = word.toList ++ ' ' :: arg)

/-- **A text denotes a number**: decimal digits, at least one, with or without a plus. -/
def Denotes (text : List Char) (n : ℕ) : Prop :=
  ∃ (plus : List Char) (ds : Digits), (plus = [] ∨ plus = ['+']) ∧ ds ≠ [] ∧
    text = plus ++ ds.chars ∧ n = ds.value

/-- **A line ends the script with a status**, a number of one byte. -/
def Exits (line : List Char) (code : ℕ) : Prop :=
  ∃ arg, Spells line "exit" arg ∧ Denotes arg code ∧ code < 2 ^ 8

def words : List String := ["print", "eprint", "sleep", "pidfile", "exit"]

/-- **A line that is no directive**: its word is none of the language, or it is the word to exit and
what follows is no number of one byte. -/
def Bad (line : List Char) : Prop :=
  ¬ Ignored line ∧ ∃ word arg, Spells line word arg ∧
    (word ∉ words ∨ word = "exit" ∧ ∀ code, Denotes arg code → 2 ^ 8 ≤ code)

/-- **A line that stops the script.** -/
def Stops (line : List Char) : Prop := (∃ code, Exits line code) ∨ Bad line

/-! ## Words -/

theorem forall_ne_of_not_mem {word : List Char} (h : ' ' ∉ word) :
    ∀ c ∈ word, decide (c ≠ ' ') = true := by
  intro c hc
  exact decide_eq_true fun heq => h (heq ▸ hc)

theorem splitWord_of_not_mem {word : List Char} (h : ' ' ∉ word) :
    Directive.splitWord word = (word, []) := by
  have hall := forall_ne_of_not_mem h
  rw [Directive.splitWord, List.takeWhile_eq_self_iff.mpr hall, List.dropWhile_eq_nil_iff.mpr hall]
  rfl

theorem splitWord_append {word : List Char} (h : ' ' ∉ word) (arg : List Char) :
    Directive.splitWord (word ++ ' ' :: arg) = (word, arg) := by
  have hall := forall_ne_of_not_mem h
  rw [Directive.splitWord, List.takeWhile_append_of_pos hall, List.dropWhile_append_of_pos hall]
  simp

theorem spells_iff {line : List Char} {word : String} {arg : List Char} :
    Spells line word arg ↔ Directive.splitWord (trimBlanks line) = (word.toList, arg) := by
  constructor
  · rintro ⟨body, htrimmed, hword, ⟨rfl, rfl⟩ | rfl⟩
    · rw [htrimmed.trimBlanks_eq, splitWord_of_not_mem hword]
    · rw [htrimmed.trimBlanks_eq, splitWord_append hword]
  · intro h
    have hword : word.toList = (trimBlanks line).takeWhile (· ≠ ' ') := (congrArg Prod.fst h).symm
    have harg : arg = ((trimBlanks line).dropWhile (· ≠ ' ')).drop 1 := (congrArg Prod.snd h).symm
    have hsplit : trimBlanks line = word.toList ++ (trimBlanks line).dropWhile (· ≠ ' ') := by
      rw [hword, List.takeWhile_append_dropWhile]
    refine ⟨trimBlanks line, trimmed_trimBlanks line, ?_, ?_⟩
    · rw [hword]
      intro hmem
      exact absurd (List.mem_takeWhile_imp hmem) (by decide)
    · cases hrest : (trimBlanks line).dropWhile (· ≠ ' ') with
      | nil =>
          rw [hrest] at hsplit harg
          exact Or.inl ⟨by rw [hsplit, List.append_nil], harg⟩
      | cons c rest =>
          have hc : c = ' ' := by
            have hhead := List.head?_dropWhile_not (· ≠ ' ') (trimBlanks line)
            rw [hrest] at hhead
            simpa using hhead
          rw [hrest] at hsplit harg
          exact Or.inr (by rw [hsplit, hc, harg]; rfl)

/-- Every line is a word with an argument, in one way. -/
theorem exists_spells (line : List Char) : ∃ word arg, Spells line word arg :=
  ⟨String.ofList (Directive.splitWord (trimBlanks line)).1,
    (Directive.splitWord (trimBlanks line)).2, spells_iff.mpr (by rw [String.toList_ofList])⟩

theorem Spells.unique {line : List Char} {word word' : String} {arg arg' : List Char}
    (h : Spells line word arg) (h' : Spells line word' arg') : word = word' ∧ arg = arg' := by
  have heq := (spells_iff.mp h).symm.trans (spells_iff.mp h')
  exact ⟨String.toList_injective (congrArg Prod.fst heq), congrArg Prod.snd heq⟩

theorem not_spells {line : List Char} {word : String}
    (h : (Directive.splitWord (trimBlanks line)).1 ≠ word.toList) (arg : List Char) :
    ¬ Spells line word arg :=
  fun hspells => h (congrArg Prod.fst (spells_iff.mp hspells))

theorem ignored_iff {line : List Char} :
    Ignored line ↔ trimBlanks line = [] ∨ (trimBlanks line).take 2 = ['-', '-'] := by
  constructor
  · rintro ⟨body, htrimmed, hbody⟩
    rw [htrimmed.trimBlanks_eq]
    refine hbody.imp_right ?_
    rintro ⟨comment, rfl⟩
    rfl
  · intro h
    refine ⟨trimBlanks line, trimmed_trimBlanks line, h.imp_right fun htake => ?_⟩
    exact ⟨(trimBlanks line).drop 2, by rw [← List.take_append_drop 2 (trimBlanks line), htake]; rfl⟩

theorem Spells.not_ignored {line : List Char} {word : String} {arg : List Char}
    (h : Spells line word arg) (hword : word ∈ words) : ¬ Ignored line := by
  have hheads : ∀ word ∈ words, word.toList.head? ≠ none ∧ word.toList.head? ≠ some '-' := by decide
  have hhead := hheads word hword
  obtain ⟨body, htrimmed, -, hbody⟩ := h
  rw [ignored_iff, htrimmed.trimBlanks_eq]
  cases hw : word.toList with
  | nil => exact absurd (by rw [hw]; rfl) hhead.1
  | cons c rest =>
      have hc : c ≠ '-' := fun heq => hhead.2 (by rw [hw, heq]; rfl)
      rw [hw] at hbody
      rcases hbody with ⟨rfl, -⟩ | rfl <;> simp [hc]

/-! ## Numbers -/

theorem exitCode?_eq {text digits : List Char}
    (h : text = '+' :: digits ∨ text = digits ∧ text.head? ≠ some '+') :
    Directive.exitCode? text =
      if digits ≠ [] ∧ digits.all Numeral.isDigit = true then
        if Numeral.natOfDigits digits < 256 then some (Numeral.natOfDigits digits) else none
      else none := by
  rcases h with rfl | ⟨rfl, hhead⟩
  · rfl
  · cases text with
    | nil => rfl
    | cons c rest =>
        have hc : c ≠ '+' := fun heq => hhead (by rw [heq]; rfl)
        have hnone : ∀ rest', c :: rest = '+' :: rest' → False :=
          fun rest' heq => hc (List.cons.inj heq).1
        rw [Directive.exitCode?.eq_2 _ hnone]

theorem exists_plus (text : List Char) :
    ∃ plus digits, (plus = [] ∨ plus = ['+']) ∧ text = plus ++ digits ∧
      (text = '+' :: digits ∨ text = digits ∧ text.head? ≠ some '+') := by
  by_cases hhead : text.head? = some '+'
  · obtain ⟨digits, rfl⟩ := List.head?_eq_some_iff.mp hhead
    exact ⟨['+'], digits, Or.inr rfl, rfl, Or.inl rfl⟩
  · exact ⟨[], text, Or.inl rfl, rfl, Or.inr ⟨rfl, hhead⟩⟩

/-- **The numbers of one byte are read**, and nothing else is. -/
theorem exitCode?_eq_some_iff {text : List Char} {n : ℕ} :
    Directive.exitCode? text = some n ↔ Denotes text n ∧ n < 2 ^ 8 := by
  constructor
  · intro h
    obtain ⟨plus, digits, hplus, htext, hsplit⟩ := exists_plus text
    rw [exitCode?_eq hsplit] at h
    split at h
    · next hdigits =>
        obtain ⟨ds, rfl⟩ := Numeral.exists_chars _ (List.all_eq_true.mp hdigits.2)
        have hne : ds ≠ [] := by
          rintro rfl
          exact hdigits.1 rfl
        split at h
        · next hlt =>
            cases h
            rw [Numeral.natOfDigits_chars] at hlt ⊢
            exact ⟨⟨plus, ds, hplus, hne, htext, rfl⟩, hlt⟩
        · cases h
    · cases h
  · rintro ⟨⟨plus, ds, hplus, hne, rfl, rfl⟩, hlt⟩
    have hchars : ds.chars ≠ [] := mt List.map_eq_nil_iff.mp hne
    have hsplit : plus ++ ds.chars = '+' :: ds.chars ∨
        plus ++ ds.chars = ds.chars ∧ (plus ++ ds.chars).head? ≠ some '+' := by
      rcases hplus with rfl | rfl
      · -- No digit is a plus.
        refine Or.inr ⟨rfl, fun hhead => ?_⟩
        have hmem : '+' ∈ ds.chars := List.mem_of_mem_head? hhead
        have hdigit := List.all_eq_true.mp (Numeral.all_isDigit_chars ds) '+' hmem
        exact absurd hdigit (by decide)
      · exact Or.inl rfl
    rw [exitCode?_eq hsplit, if_pos ⟨hchars, Numeral.all_isDigit_chars ds⟩,
      Numeral.natOfDigits_chars]
    exact if_pos hlt

/-! ## Meanings -/

theorem read_of_ignored {line : List Char} (h : Ignored line) : Directive.read line = .skip := by
  rw [Directive.read]
  exact if_pos (ignored_iff.mp h)

/-- What a word asks for with its argument. -/
def asks (word : String) (arg : List Char) : Reading :=
  let orBad (d : Option Directive) : Reading := match d with
    | some d => .directive d
    | none => .bad
  match word with
  | "print" => .directive (.print (String.ofList arg))
  | "eprint" => .directive (.eprint (String.ofList arg))
  | "sleep" => orBad ((Directive.sleep? (String.ofList arg)).map .sleep)
  | "pidfile" => .directive (.saveNumber (Path.ofText (String.ofList arg)))
  | "exit" => orBad ((Directive.exitCode? arg).map .exit)
  | _ => .bad

/-- **A line that is not ignored is read by its word.** -/
theorem read_of_spells {line : List Char} {word : String} {arg : List Char} (h : Spells line word arg)
    (hnot : ¬ Ignored line) : Directive.read line = asks word arg := by
  have hsplit := spells_iff.mp h
  rw [Directive.read, if_neg (mt ignored_iff.mpr hnot)]
  simp only [hsplit, String.ofList_toList]
  rfl

theorem read_of_exits {line : List Char} {code : ℕ} (h : Exits line code) :
    Directive.read line = .directive (.exit code) := by
  obtain ⟨arg, hspells, hcode⟩ := h
  rw [read_of_spells hspells (hspells.not_ignored (by decide))]
  show (match (Directive.exitCode? arg).map Directive.exit with
    | some d => Reading.directive d
    | none => .bad) = _
  rw [exitCode?_eq_some_iff.mpr hcode]
  rfl

/-- What does not denote a number of one byte is no argument to exit with. -/
theorem exitCode?_eq_none {arg : List Char} (h : ∀ code, Denotes arg code → 2 ^ 8 ≤ code) :
    Directive.exitCode? arg = none := by
  by_contra hsome
  obtain ⟨code, hcode⟩ := Option.ne_none_iff_exists'.mp hsome
  obtain ⟨hdenotes, hlt⟩ := exitCode?_eq_some_iff.mp hcode
  exact absurd (h code hdenotes) (not_le.mpr hlt)

theorem read_of_bad {line : List Char} (h : Bad line) : Directive.read line = .bad := by
  obtain ⟨hnot, word, arg, hspells, hbad⟩ := h
  rw [read_of_spells hspells hnot]
  rcases hbad with hword | ⟨rfl, hcode⟩
  · unfold asks
    split <;> first | rfl | exact absurd (by decide) hword
  · show (match (Directive.exitCode? arg).map Directive.exit with
      | some d => Reading.directive d
      | none => .bad) = _
    rw [exitCode?_eq_none hcode]
    rfl

/-- A line that is read as a directive goes on, unless that is an exit. -/
theorem not_stops_of_read {line : List Char} (hbad : Directive.read line ≠ .bad)
    (hexit : ∀ code, Directive.read line ≠ .directive (.exit code)) : ¬ Stops line := by
  rintro (⟨code, h⟩ | h)
  · exact hexit code (read_of_exits h)
  · exact hbad (read_of_bad h)

/-- **A line that neither stops the script nor sleeps nor saves a number** is ignored or writes its
argument. -/
theorem ignored_or_spells {line : List Char} (hgo : ¬ Stops line)
    (hsleep : ∀ arg, ¬ Spells line "sleep" arg) (hsave : ∀ arg, ¬ Spells line "pidfile" arg) :
    Ignored line ∨ ∃ arg, Spells line "print" arg ∨ Spells line "eprint" arg := by
  by_cases hignored : Ignored line
  · exact Or.inl hignored
  obtain ⟨word, arg, hspells⟩ := exists_spells line
  refine Or.inr ⟨arg, ?_⟩
  have hnotBad : ¬ (word ∉ words ∨ word = "exit" ∧ ∀ code, Denotes arg code → 2 ^ 8 ≤ code) :=
    fun hbad => hgo (Or.inr ⟨hignored, word, arg, hspells, hbad⟩)
  rw [not_or, not_not] at hnotBad
  obtain ⟨hword, hcode⟩ := hnotBad
  simp only [words, List.mem_cons, List.not_mem_nil, or_false] at hword
  rcases hword with rfl | rfl | rfl | rfl | rfl
  · exact Or.inl hspells
  · exact Or.inr hspells
  · exact absurd hspells (hsleep arg)
  · exact absurd hspells (hsave arg)
  · refine absurd ⟨rfl, fun code hdenotes => not_lt.mp fun hlt => ?_⟩ hcode
    exact hgo (Or.inl ⟨code, arg, hspells, hdenotes, hlt⟩)

end Script

end Conformance
