import Mathlib
import Conformance.Text.Blank

set_option autoImplicit false

/-! # Lines, and the blanks at their ends

`Lines` says what the lines of a text are and `Trimmed` what is left of a line without the blanks at
its ends, both by the way the text is put together and not by the way it is searched. There is one
answer in both cases, and `linesOf` and `trimBlanks` give it (`linesOf_eq_iff`, `trimmed_trimBlanks`).
-/

namespace Conformance

/-! ## Lines -/

/-- **A text and its lines.** Every newline ends a line. What stands behind the last newline is a line
too, unless nothing does. -/
inductive Lines : List Char → List (List Char) → Prop
  | nil : Lines [] []
  | last {line : List Char} : '\n' ∉ line → line ≠ [] → Lines line [line]
  | ended {line rest : List Char} {lines : List (List Char)} :
      '\n' ∉ line → Lines rest lines → Lines (line ++ '\n' :: rest) (line :: lines)

theorem linesOf_cons_newline (cs : List Char) : linesOf ('\n' :: cs) = [] :: linesOf cs := by
  rw [linesOf, if_pos rfl]

theorem linesOf_cons {c : Char} (hc : c ≠ '\n') (cs : List Char) :
    linesOf (c :: cs) = (c :: (linesOf cs).headD []) :: (linesOf cs).tail := by
  rw [linesOf, if_neg hc]
  cases linesOf cs with
  | nil => rfl
  | cons line rest => rfl

theorem linesOf_append_newline {line : List Char} (h : '\n' ∉ line) (rest : List Char) :
    linesOf (line ++ '\n' :: rest) = line :: linesOf rest := by
  induction line with
  | nil => exact linesOf_cons_newline rest
  | cons c line ih =>
      rw [List.mem_cons, not_or] at h
      obtain ⟨hc, hline⟩ := h
      rw [List.cons_append, linesOf_cons (Ne.symm hc), ih hline]
      rfl

theorem linesOf_of_not_mem {line : List Char} (h : '\n' ∉ line) (hne : line ≠ []) :
    linesOf line = [line] := by
  induction line with
  | nil => exact absurd rfl hne
  | cons c line ih =>
      rw [List.mem_cons, not_or] at h
      obtain ⟨hc, hline⟩ := h
      rw [linesOf_cons (Ne.symm hc)]
      cases line with
      | nil => rfl
      | cons d line =>
          rw [ih hline (List.cons_ne_nil _ _)]
          rfl

theorem Lines.linesOf_eq {cs : List Char} {lines : List (List Char)} (h : Lines cs lines) :
    linesOf cs = lines := by
  induction h with
  | nil => rfl
  | last h hne => exact linesOf_of_not_mem h hne
  | ended h _ ih => rw [linesOf_append_newline h, ih]

theorem Lines.cons {cs : List Char} {lines : List (List Char)} (h : Lines cs lines) {c : Char}
    (hc : c ≠ '\n') : Lines (c :: cs) ((c :: lines.headD []) :: lines.tail) := by
  have hfresh : ∀ {line : List Char}, '\n' ∉ line → '\n' ∉ c :: line := by
    intro line hline
    rw [List.mem_cons, not_or]
    exact ⟨Ne.symm hc, hline⟩
  cases h with
  | nil => exact .last (hfresh List.not_mem_nil) (List.cons_ne_nil _ _)
  | last hline _ => exact .last (hfresh hline) (List.cons_ne_nil _ _)
  | ended hline hrest => exact .ended (hfresh hline) hrest

theorem lines_linesOf (cs : List Char) : Lines cs (linesOf cs) := by
  induction cs with
  | nil => exact .nil
  | cons c cs ih =>
      by_cases hc : c = '\n'
      · rw [hc, linesOf_cons_newline]
        exact @Lines.ended [] cs _ List.not_mem_nil ih
      · rw [linesOf_cons hc]
        exact ih.cons hc

/-- **A text is split into its lines.** -/
theorem linesOf_eq_iff {cs : List Char} {lines : List (List Char)} :
    linesOf cs = lines ↔ Lines cs lines := by
  constructor
  · rintro rfl
    exact lines_linesOf cs
  · exact Lines.linesOf_eq

/-- No line has a newline. -/
theorem Lines.newline_not_mem {cs : List Char} {lines : List (List Char)} (h : Lines cs lines) :
    ∀ line ∈ lines, '\n' ∉ line := by
  induction h with
  | nil => exact fun _ h => nomatch h
  | last hline _ => exact List.forall_mem_singleton.mpr hline
  | ended hline _ ih => exact List.forall_mem_cons.mpr ⟨hline, ih⟩

/-- A text that is empty or ends with a newline, so that another text behind it begins a line. -/
def Closed (cs : List Char) : Prop := ∀ c ∈ cs.getLast?, c = '\n'

theorem closed_append_newline (cs : List Char) : Closed (cs ++ ['\n']) := by
  intro c hc
  rw [List.getLast?_concat] at hc
  exact (Option.mem_some_iff.mp hc).symm

theorem Closed.of_append {line rest : List Char} (h : Closed (line ++ '\n' :: rest)) :
    Closed rest := by
  intro c hc
  refine h c ?_
  have hne : rest ≠ [] := by
    rintro rfl
    cases hc
  rwa [← List.singleton_append, ← List.append_assoc, List.getLast?_append_of_ne_nil _ hne]

theorem Closed.eq_nil {cs : List Char} (h : Closed cs) (hfree : '\n' ∉ cs) : cs = [] := by
  by_contra hne
  have hlast := h _ (List.getLast?_eq_some_getLast hne)
  exact hfree (hlast ▸ List.getLast_mem hne)

/-- **A closed text is its lines, each with a newline behind it.** -/
theorem Lines.eq_flatMap {cs : List Char} {lines : List (List Char)} (h : Lines cs lines)
    (hclosed : Closed cs) : cs = lines.flatMap (· ++ ['\n']) := by
  induction h with
  | nil => rfl
  | last hline hne => exact absurd (hclosed.eq_nil hline) hne
  | @ended line rest lines hline hrest ih =>
      calc line ++ '\n' :: rest = (line ++ ['\n']) ++ rest := by simp
        _ = (line ++ ['\n']) ++ lines.flatMap (· ++ ['\n']) := by rw [← ih hclosed.of_append]

/-- **The lines of a closed text and of a text behind it** are the lines of both. -/
theorem Lines.append {cs ds : List Char} {lines more : List (List Char)} (h : Lines cs lines)
    (hclosed : Closed cs) (hmore : Lines ds more) : Lines (cs ++ ds) (lines ++ more) := by
  induction h with
  | nil => exact hmore
  | last hline hne => exact absurd (hclosed.eq_nil hline) hne
  | ended hline _ ih =>
      rw [List.append_assoc, List.cons_append, List.cons_append]
      exact .ended hline (ih hclosed.of_append)

/-! ## The end of a list -/

section DropTail

variable {α : Type} {p : α → Bool}

theorem dropTail_append {tail : List α} (h : ∀ a ∈ tail, p a = true) (xs : List α) :
    dropTail p (xs ++ tail) = dropTail p xs := by
  have hrev : ∀ a ∈ tail.reverse, p a = true := fun a ha => h a (List.mem_reverse.mp ha)
  rw [dropTail, List.reverse_append, List.dropWhile_append_of_pos hrev, dropTail]

theorem dropTail_eq_self {xs : List α} (h : ∀ a ∈ xs.getLast?, p a = false) :
    dropTail p xs = xs := by
  rw [dropTail]
  have hkeep : xs.reverse.dropWhile p = xs.reverse := by
    cases hrev : xs.reverse with
    | nil => rfl
    | cons a rest =>
        have ha : p a = false := h a (by rw [← List.head?_reverse, hrev]; rfl)
        rw [List.dropWhile_cons_of_neg (by simp [ha])]
  rw [hkeep, List.reverse_reverse]

/-- What is dropped satisfies the condition, and the last element that is kept does not. -/
theorem exists_dropTail (p : α → Bool) (xs : List α) :
    (∃ tail, xs = dropTail p xs ++ tail ∧ ∀ a ∈ tail, p a = true) ∧
      ∀ a ∈ (dropTail p xs).getLast?, p a = false := by
  refine ⟨⟨(xs.reverse.takeWhile p).reverse, ?_, fun a ha => ?_⟩, fun a ha => ?_⟩
  · rw [dropTail, ← List.reverse_append, List.takeWhile_append_dropWhile, List.reverse_reverse]
  · exact List.mem_takeWhile_imp (List.mem_reverse.mp ha)
  · rw [dropTail, List.getLast?_reverse] at ha
    have hhead := List.head?_dropWhile_not p xs.reverse
    rw [Option.mem_def.mp ha] at hhead
    simpa using hhead

end DropTail

/-! ## Blanks at both ends -/

/-- **A text without the blanks at its ends.** -/
structure Trimmed (text body : List Char) : Prop where
  around : ∃ before behind, text = before ++ body ++ behind ∧
    (∀ c ∈ before, isBlank c = true) ∧ ∀ c ∈ behind, isBlank c = true
  head : ∀ c ∈ body.head?, isBlank c = false
  last : ∀ c ∈ body.getLast?, isBlank c = false

theorem Trimmed.trimBlanks_eq {text body : List Char} (h : Trimmed text body) :
    trimBlanks text = body := by
  obtain ⟨before, behind, rfl, hbefore, hbehind⟩ := h.around
  rw [trimBlanks, List.append_assoc, List.dropWhile_append_of_pos hbefore]
  cases hbody : body with
  | nil =>
      have hnone : behind.dropWhile isBlank = [] := List.dropWhile_eq_nil_iff.mpr hbehind
      rw [List.nil_append, hnone]
      rfl
  | cons c rest =>
      have hc : isBlank c = false := h.head c (by rw [hbody]; rfl)
      rw [List.cons_append, List.dropWhile_cons_of_neg (by simp [hc]), ← List.cons_append, ← hbody,
        dropTail_append hbehind, dropTail_eq_self h.last]

theorem trimmed_trimBlanks (text : List Char) : Trimmed text (trimBlanks text) := by
  obtain ⟨⟨behind, hsplit, hbehind⟩, hlast⟩ := exists_dropTail isBlank (text.dropWhile isBlank)
  have hbefore : ∀ c ∈ text.takeWhile isBlank, isBlank c = true :=
    fun c hc => List.mem_takeWhile_imp hc
  refine ⟨⟨text.takeWhile isBlank, behind, ?_, hbefore, hbehind⟩, fun c hc => ?_, hlast⟩
  · calc text = text.takeWhile isBlank ++ text.dropWhile isBlank :=
          List.takeWhile_append_dropWhile.symm
      _ = text.takeWhile isBlank ++ trimBlanks text ++ behind := by
          rw [List.append_assoc, trimBlanks, ← hsplit]
  · -- The first character that is kept is the first one of the text without its leading blanks.
    have hkept : (dropTail isBlank (text.dropWhile isBlank)).head? = some c := hc
    have hhead : (text.dropWhile isBlank).head? = some c := by
      rw [hsplit, List.head?_append, hkept]
      rfl
    have hnot := List.head?_dropWhile_not isBlank text
    rw [hhead] at hnot
    simpa using hnot

/-! ## Carriage returns -/

/-- A text with a carriage return in front of every newline. -/
def withReturns (cs : List Char) : List Char :=
  cs.flatMap fun c => if c = '\n' then ['\r', '\n'] else [c]

theorem withReturns_of_not_mem {line : List Char} (h : '\n' ∉ line) : withReturns line = line := by
  induction line with
  | nil => rfl
  | cons c line ih =>
      rw [List.mem_cons, not_or] at h
      obtain ⟨hc, hline⟩ := h
      rw [withReturns, List.flatMap_cons, if_neg (Ne.symm hc)]
      exact congrArg (c :: ·) (ih hline)

/-- **A carriage return at the end of a line is a blank there.** -/
theorem trimBlanks_append_return (line : List Char) : trimBlanks (line ++ ['\r']) = trimBlanks line := by
  have htrimmed := trimmed_trimBlanks line
  refine Trimmed.trimBlanks_eq ⟨?_, htrimmed.head, htrimmed.last⟩
  obtain ⟨before, behind, hline, hbefore, hbehind⟩ := htrimmed.around
  refine ⟨before, behind ++ ['\r'], ?_, hbefore, ?_⟩
  · rw [← List.append_assoc, ← hline]
  · exact List.forall_mem_append.mpr ⟨hbehind, List.forall_mem_singleton.mpr rfl⟩

/-- **With carriage returns a text has the same lines**, but for blanks at their ends. -/
theorem Lines.exists_withReturns {cs : List Char} {lines : List (List Char)} (h : Lines cs lines) :
    ∃ lines', Lines (withReturns cs) lines' ∧ lines'.map trimBlanks = lines.map trimBlanks := by
  induction h with
  | nil => exact ⟨[], .nil, rfl⟩
  | @last line hline hne =>
      refine ⟨[line], ?_, rfl⟩
      rw [withReturns_of_not_mem hline]
      exact .last hline hne
  | @ended line rest lines hline _ ih =>
      obtain ⟨lines', hrest, htrim⟩ := ih
      refine ⟨(line ++ ['\r']) :: lines', ?_, ?_⟩
      · have hsplit : withReturns (line ++ '\n' :: rest) =
            line ++ ['\r'] ++ '\n' :: withReturns rest := by
          rw [withReturns, List.flatMap_append, List.flatMap_cons, if_pos rfl]
          show withReturns line ++ _ = _
          rw [withReturns_of_not_mem hline, List.append_assoc]
          rfl
        rw [hsplit]
        refine .ended ?_ hrest
        rw [List.mem_append, not_or]
        exact ⟨hline, by decide⟩
      · rw [List.map_cons, List.map_cons, htrim, trimBlanks_append_return]

end Conformance
