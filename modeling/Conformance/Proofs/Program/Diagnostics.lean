import Mathlib
import Conformance.Program

set_option autoImplicit false

/-! # What standard error has beside an error

What a logger writes for a diagnostic are lines, and none of them reads like the error that a run stops
at (`Harmless`): there is the time in front of it. So what is logged never reads like an error
(`Computer.not_complains_logged`). That the lines are of this kind is shown for a logger without
colours (`Diagnostic.harmless_line`), unless the error that a warning names has lines itself.
-/

namespace Conformance

/-! ## Lines that read like an error -/

/-- The end of a line, and what an error begins with in the next one. -/
def errorMark : List Char := '\n' :: "Error:".toList

/-- **Some line of a text begins as an error does.** -/
def Complains (text : String) : Prop := errorMark <:+: '\n' :: text.toList

/-- Whole lines, none of which begins as an error does. -/
structure Harmless (text : String) : Prop where
  ended : text = "" ∨ ∃ line, text.toList = line ++ ['\n']
  not_complains : ¬ Complains text

/-- A newline in the middle of the mark is one too many. -/
theorem newline_not_mem_of_errorMark {front rest : List Char} (hfront : front ≠ [])
    (h : errorMark = front ++ rest) : '\n' ∉ rest := by
  intro hmem
  obtain ⟨c, front, rfl⟩ := List.exists_cons_of_ne_nil hfront
  have htail : "Error:".toList = front ++ rest := (List.cons.inj h).2
  have hno : '\n' ∉ "Error:".toList := by decide
  exact hno (htail ▸ List.mem_append_right front hmem)

theorem not_complains_empty : ¬ Complains "" := by
  intro h
  have hlength := h.length_le
  simp [errorMark] at hlength

theorem not_complains_append {a b : String} (ha : Harmless a) (hb : ¬ Complains b) :
    ¬ Complains (a ++ b) := by
  obtain rfl | ⟨line, hline⟩ := ha.ended
  · rwa [String.empty_append]
  · intro h
    have hsplit : '\n' :: (a ++ b).toList = ('\n' :: line) ++ ('\n' :: b.toList) := by
      rw [String.toList_append, hline]
      simp
    rw [Complains, hsplit, List.infix_append_iff_ne_nil] at h
    obtain h | h | ⟨front, rest, hfront, hrest, hmark, -, hstart⟩ := h
    · refine ha.not_complains (h.trans ?_)
      rw [hline, ← List.cons_append]
      exact (List.prefix_append _ _).isInfix
    · exact hb h
    · -- The second line begins where the first has ended, not before.
      obtain ⟨c, rest, rfl⟩ := List.exists_cons_of_ne_nil hrest
      obtain ⟨rfl, -⟩ := List.cons_prefix_cons.mp hstart
      exact newline_not_mem_of_errorMark hfront hmark List.mem_cons_self

/-- **What is put together of harmless texts does not complain.** -/
theorem not_complains_join {texts : List String} (h : ∀ text ∈ texts, Harmless text) :
    ¬ Complains (String.join texts) := by
  induction texts with
  | nil => exact not_complains_empty
  | cons text texts ih =>
      obtain ⟨hfirst, hrest⟩ := List.forall_mem_cons.mp h
      rw [String.join_cons]
      exact not_complains_append hfirst (ih hrest)

theorem harmless_of_line {text : String} {c : Char} {line : List Char}
    (htext : text.toList = (c :: line) ++ ['\n']) (hc : c ≠ 'E') (hline : '\n' ∉ c :: line) :
    Harmless text where
  ended := Or.inr ⟨_, htext⟩
  not_complains := by
    rw [Complains, htext, List.infix_cons_iff, List.infix_concat_iff]
    rintro (h | h | h)
    · obtain ⟨rest, hrest⟩ := h
      exact hc (List.cons.inj (List.cons.inj hrest).2).1.symm
    · -- The only newline is the last character.
      obtain ⟨front, hfront⟩ := h
      have hlast := congrArg List.getLast? hfront
      rw [List.getLast?_append, List.getLast?_concat] at hlast
      cases hlast
    · exact hline (h.subset List.mem_cons_self)

/-! ## What is logged -/

namespace Computer

variable {σ : Type} (computer : Computer σ)

@[simp] theorem diagnosed_self (state : σ) : computer.diagnosed state state = [] := List.drop_length

@[simp] theorem logged_self (state : σ) : computer.logged state state = "" := by
  rw [logged, diagnosed_self]
  rfl

/-- **What is logged does not read like an error** if no line of it does. -/
theorem not_complains_logged {before after : σ}
    (h : ∀ d ∈ computer.diagnosed before after, Harmless (computer.line d)) :
    ¬ Complains (computer.logged before after) := by
  refine not_complains_join fun text htext => ?_
  obtain ⟨d, hd, rfl⟩ := List.mem_map.mp htext
  exact h d hd

end Computer

/-! ## The lines of a logger without colours -/

theorem Stamp.isDigit_of_mem_padded {places n : ℕ} {c : Char} (h : c ∈ (padded places n).toList) :
    c.isDigit = true := by
  simp only [padded, String.toList_ofList, List.mem_append] at h
  obtain hzero | hdigit := h
  · rw [List.eq_of_mem_replicate hzero]
    rfl
  · rw [Nat.toString_eq_repr, Nat.toList_repr] at hdigit
    exact Nat.isDigit_of_mem_toDigits (by decide) (by decide) hdigit

theorem Stamp.newline_not_mem_padded (places n : ℕ) : '\n' ∉ (padded places n).toList :=
  fun h => absurd (isDigit_of_mem_padded h) (by decide)

/-- A point in time is shown in one line, which begins with a digit. -/
theorem Stamp.exists_text (nanos : ℕ) : ∃ c rest,
    (text nanos).toList = c :: rest ∧ c.isDigit = true ∧ '\n' ∉ c :: rest := by
  rw [text]
  generalize date _ = date
  obtain ⟨c, digits, hyear⟩ := List.exists_cons_of_ne_nil
    (show (padded 4 date.1).toList ≠ [] by simp [padded])
  have hfirst := newline_not_mem_padded 4 date.1
  rw [hyear] at hfirst
  obtain ⟨rest, hrest, hnewline⟩ : ∃ rest, shown date (nanos / 1000) = padded 4 date.1 ++ rest ∧
      '\n' ∉ rest.toList := by
    simp only [shown, String.append_assoc]
    exact ⟨_, rfl, by simp [newline_not_mem_padded]⟩
  refine ⟨c, digits ++ rest.toList, ?_, isDigit_of_mem_padded (hyear ▸ List.mem_cons_self), ?_⟩
  · rw [hrest, String.toList_append, hyear, List.cons_append]
  · rw [← List.cons_append, List.mem_append, not_or]
    exact ⟨hfirst, hnewline⟩

theorem Diagnostic.line_append_ne (d : Diagnostic) (text : String) : d.line ++ text ≠ text := by
  intro h
  have hlist := congrArg String.toList h
  rw [String.toList_append, List.append_left_eq_self] at hlist
  simp [line] at hlist

/-- **A diagnostic is a line that begins with the time**, if the error that it names is no more than
a line. -/
theorem Diagnostic.harmless_line {d : Diagnostic}
    (h : ∀ error ∈ d.warning.error?, '\n' ∉ error.toList) : Harmless d.line := by
  obtain ⟨c, rest, hstamp, hc, hnewline⟩ := Stamp.exists_text d.time
  have hpid : '\n' ∉ Nat.toDigits 10 d.pid := fun hmem =>
    absurd (Nat.isDigit_of_mem_toDigits (by decide) (by decide) hmem) (by decide)
  have hmessage : '\n' ∉ d.warning.message.toList := by
    cases d.warning <;> simp [Warning.message]
  have htext : '\n' ∉ d.text.toList := by
    unfold text
    cases herror : d.warning.error? with
    | none => split <;> simp [hmessage, hpid]
    | some error =>
        have := h error herror
        split <;> simp [hmessage, hpid, this]
  have hline : d.line.toList = (c :: (rest ++ ("  WARN harness::testing::runner: ".toList ++
      d.text.toList))) ++ ['\n'] := by simp [line, hstamp]
  refine harmless_of_line hline ?_ ?_
  · rintro rfl
    cases hc
  · rw [← List.cons_append, List.mem_append, List.mem_append, not_or, not_or]
    exact ⟨hnewline, by decide, htext⟩

end Conformance
