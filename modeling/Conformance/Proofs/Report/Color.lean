import Conformance.Proofs.Report.Calls
import Conformance.Proofs.Text.Lines

set_option autoImplicit false

/-! # Colours can be deleted from a report

In text format a reporter with colours writes what one without them writes, with escape sequences around
the tags. A program that deletes every sequence `ESC [ digits m` from the coloured report,
`Ansi.delete`, is left with the plain one, as long as no text that is shown has an escape character
(`Reporter.delete_output_text`). In JSON format there are no colours.

A tag begins with the bracket that also follows an escape character, and texts are glued to it. What is
compared is therefore one piece of a report in front of any rest (`Ansi.Colors`), and pieces are put
together along `++`.
-/

namespace Conformance

namespace Ansi

def escape : UInt8 := 0x1B

/-- The byte that follows it in a sequence for a colour. -/
def bracket : UInt8 := 0x5B

def letter : UInt8 := 0x6D

def isDigit (b : UInt8) : Bool := 0x30 ≤ b && b ≤ 0x39

/-- The length of the sequence `ESC [ digits m` that bytes begin with; zero if they begin with none. -/
def sequenceLength : Bytes → Nat
  | first :: second :: rest =>
    let digits := rest.takeWhile isDigit
    if first = escape ∧ second = bracket ∧ digits ≠ [] ∧
        (rest.drop digits.length).head? = some letter then digits.length + 3
    else 0
  | _ => 0

/-- Bytes without the first `n`, and without the sequences behind these. -/
def deleteFrom : Nat → Bytes → Bytes
  | _, [] => []
  | n + 1, _ :: rest => deleteFrom n rest
  | 0, b :: rest =>
    match sequenceLength (b :: rest) with
    | 0 => b :: deleteFrom 0 rest
    | n + 1 => deleteFrom n rest

/-- **Bytes without their colours**: every sequence `ESC [ digits m` is deleted. -/
def delete (bytes : Bytes) : Bytes := deleteFrom 0 bytes

/-! ## Deleting -/

section

variable {digits bytes : Bytes}

theorem deleteFrom_length_append (bytes rest : Bytes) :
    deleteFrom bytes.length (bytes ++ rest) = delete rest := by
  induction bytes with
  | nil => rfl
  | cons b bytes ih => exact ih

theorem sequenceLength_of_ne {b : UInt8} (h : b ≠ escape) (rest : Bytes) :
    sequenceLength (b :: rest) = 0 := by
  cases rest with
  | nil => rfl
  | cons c rest => exact if_neg fun hsequence => h hsequence.1

def sequence (digits : Bytes) : Bytes := escape :: bracket :: (digits ++ [letter])

/-- **A sequence is deleted.** -/
theorem delete_sequence (hne : digits ≠ []) (hdigits : digits.all isDigit = true)
    (rest : Bytes) : delete (sequence digits ++ rest) = delete rest := by
  have hbytes : sequence digits ++ rest = escape :: bracket :: (digits ++ letter :: rest) := by
    simp [sequence]
  have htake : (digits ++ letter :: rest).takeWhile isDigit = digits := by
    have hletter : isDigit letter = false := by decide
    rw [List.takeWhile_append_of_pos (List.all_eq_true.mp hdigits),
      List.takeWhile_cons_of_neg (by simp [hletter]), List.append_nil]
  have hlength : sequenceLength (escape :: bracket :: (digits ++ letter :: rest)) =
      digits.length + 3 := by
    rw [sequenceLength, htake]
    exact if_pos ⟨rfl, rfl, hne, by rw [List.drop_left]; rfl⟩
  have hskip : deleteFrom (digits.length + 2) (bracket :: (digits ++ letter :: rest)) =
      delete rest := by
    simpa using deleteFrom_length_append (bracket :: digits ++ [letter]) rest
  rw [hbytes, delete, deleteFrom, hlength]
  exact hskip

/-- **What has no escape character is kept.** -/
theorem delete_append_of_free (h : escape ∉ bytes) (rest : Bytes) :
    delete (bytes ++ rest) = bytes ++ delete rest := by
  induction bytes with
  | nil => rfl
  | cons b bytes ih =>
      obtain ⟨hb, hbytes⟩ := not_or.mp (mt List.mem_cons.mpr h)
      rw [List.cons_append, delete, deleteFrom, sequenceLength_of_ne (Ne.symm hb)]
      exact congrArg (b :: ·) (ih hbytes)

/-- A sequence without digits is kept, and so is a bracket that no escape character stands before. -/
example : delete (Utf8.encode "\x1b[34m[Test]\x1b[0m[0m\x1b[m") = Utf8.encode "[Test][0m\x1b[m" := by
  decide

end

/-! ## Pieces of a report -/

/-- **A piece of a report in colour**, and what it is without colours, whatever follows it. -/
structure Colors (colored plain : Bytes) : Prop where
  delete_append : ∀ rest, delete (colored ++ rest) = plain ++ delete rest
  escape_not_mem : escape ∉ plain

namespace Colors

variable {colored plain colored' plain' : Bytes}

theorem of_free (h : escape ∉ plain) : Colors plain plain := ⟨delete_append_of_free h, h⟩

theorem nil : Colors [] [] := of_free List.not_mem_nil

theorem append (h : Colors colored plain) (h' : Colors colored' plain') :
    Colors (colored ++ colored') (plain ++ plain') where
  delete_append rest := by
    rw [List.append_assoc, h.delete_append, h'.delete_append, List.append_assoc]
  escape_not_mem hmem :=
    (List.mem_append.mp hmem).elim h.escape_not_mem h'.escape_not_mem

theorem flatMap {α : Type} {xs : List α} {f g : α → Bytes} (h : ∀ x ∈ xs, Colors (f x) (g x)) :
    Colors (xs.flatMap f) (xs.flatMap g) := by
  induction xs with
  | nil => exact nil
  | cons x xs ih =>
      obtain ⟨hx, hxs⟩ := List.forall_mem_cons.mp h
      exact hx.append (ih hxs)

theorem sequence {digits : Bytes} (hne : digits ≠ []) (hdigits : digits.all isDigit = true) :
    Colors (Ansi.sequence digits) [] :=
  ⟨delete_sequence hne hdigits, List.not_mem_nil⟩

/-- **The colours of a whole report are deleted.** -/
theorem delete_eq (h : Colors colored plain) : delete colored = plain := by
  have hrest := h.delete_append []
  rwa [List.append_nil, show delete [] = [] from rfl, List.append_nil] at hrest

end Colors

/-! ## Texts -/

def Free (text : String) : Prop := '\x1b' ∉ text.toList

instance (text : String) : Decidable (Free text) := inferInstanceAs (Decidable (_ ∉ _))

theorem Free.not_mem {text : String} (h : Free text) : escape ∉ Utf8.encode text := by
  intro hmem
  obtain ⟨c, hc, hcode⟩ := Utf8.mem_encode_ascii hmem (by decide)
  have hescape : c = '\x1b' := Char.toNat_inj.mp hcode
  exact h (hescape ▸ hc)

theorem Free.append {a b : String} (ha : Free a) (hb : Free b) : Free (a ++ b) := by
  rw [Free, String.toList_append]
  exact fun hmem => (List.mem_append.mp hmem).elim ha hb

theorem Free.trimLineEnds {text : String} (h : Free text) : Free (trimLineEnds text) := by
  obtain ⟨⟨tail, hsplit, -⟩, -⟩ := exists_dropTail isLineEnd text.toList
  rw [Free, Conformance.trimLineEnds, String.toList_ofList]
  intro hmem
  rw [Free, hsplit] at h
  exact h (List.mem_append_left tail hmem)

theorem free_toString (n : Nat) : Free (toString n) := by
  intro hmem
  rw [show toString n = Nat.repr n from rfl, Nat.toList_repr] at hmem
  exact absurd (Json.isDigit_of_mem_toDigits hmem) (by decide)

end Ansi

open Ansi (Colors Free free_toString)

/-! ## What a reporter writes -/

/-- The texts from outside that are shown for a call. -/
def Call.texts : Call → List String
  | .started c => [c.suite, c.displayName]
  | .finished _ .passed => []
  | .finished _ (.failed failure) =>
    failure.message :: failure.output.toList.flatMap fun (stdout, stderr) => [stdout, stderr]
  | .summary _ => []

namespace Reporter

def callLines (r : Reporter) : Call → List Emission
  | .started c => [line (r.startedLine c)]
  | .finished _ v => r.verdictLines v
  | .summary t => r.summaryLines t

theorem share_of_text {r : Reporter} (h : r.format = .text) (c : Call) :
    r.share c = Emission.written (r.callLines c) := by
  cases c with
  | started c =>
      simp only [share, emissions, started, h]
      exact Emission.written_append_flush [line (r.startedLine c)]
  | finished c v =>
      simp only [share, emissions, finished, h, callLines, Emission.written_append_flush]
  | summary t => simp only [share, emissions, summary, h, callLines, Emission.written_append_flush]

/-! ## Pieces in colour -/

theorem colors_line {text text' : String} (h : Colors (Utf8.encode text) (Utf8.encode text')) :
    Colors (line text).bytes (line text').bytes := by
  show Colors (Utf8.encode (text ++ "\n")) (Utf8.encode (text' ++ "\n"))
  rw [Utf8.encode_append, Utf8.encode_append]
  exact h.append (.of_free (by decide))

theorem colors_tag {label : String} (h : Free label) (color : Color) :
    Colors (Utf8.encode ((make true .text).tag label color))
      (Utf8.encode ((make false .text).tag label color)) := by
  have hopen : Utf8.encode ("\x1b[" ++ color.code ++ "m") = Ansi.sequence (Utf8.encode color.code) ∧
      Utf8.encode color.code ≠ [] ∧ (Utf8.encode color.code).all Ansi.isDigit = true := by
    cases color <;> decide
  have hclose : Utf8.encode "\x1b[0m" = Ansi.sequence [0x30] := by decide
  have hbracket : Free "[" ∧ Free "]" := by decide
  have hplain : Free ("[" ++ label ++ "]") := (hbracket.1.append h).append hbracket.2
  show Colors (Utf8.encode ("\x1b[" ++ color.code ++ "m" ++ ("[" ++ label ++ "]") ++ "\x1b[0m"))
    (Utf8.encode ("[" ++ label ++ "]"))
  rw [Utf8.encode_append _ "\x1b[0m", Utf8.encode_append ("\x1b[" ++ color.code ++ "m"), hopen.1,
    hclose]
  have hfront := (Colors.sequence hopen.2.1 hopen.2.2).append (.of_free hplain.not_mem)
  simpa using hfront.append (.sequence (List.cons_ne_nil 0x30 []) (by decide))

theorem colors_tag_append {label text : String} (hlabel : Free label) (htext : Free text)
    (color : Color) : Colors (Utf8.encode ((make true .text).tag label color ++ text))
      (Utf8.encode ((make false .text).tag label color ++ text)) := by
  rw [Utf8.encode_append, Utf8.encode_append]
  exact (colors_tag hlabel color).append (.of_free htext.not_mem)

theorem colors_shownOutput {failure : Failure}
    (h : ∀ stdout stderr, failure.output = some (stdout, stderr) → Free stdout ∧ Free stderr) :
    Colors (Emission.written (shownOutput failure)) (Emission.written (shownOutput failure)) := by
  unfold shownOutput
  cases houtput : failure.output with
  | none => exact .nil
  | some streams =>
      obtain ⟨hstdout, hstderr⟩ := h _ _ houtput
      refine .flatMap fun e he => ?_
      obtain ⟨stream, hstream, rfl⟩ := List.mem_map.mp he
      have hfree : Free stream := by
        have hmem := List.mem_of_mem_filter hstream
        rw [List.mem_cons, List.mem_singleton] at hmem
        rcases hmem with rfl | rfl
        · exact hstdout
        · exact hstderr
      exact colors_line (.of_free hfree.trimLineEnds.not_mem)

/-- **A call in colour** is the call without, if the texts that are shown have no escape character. -/
theorem colors_share {c : Call} (h : ∀ text ∈ c.texts, Free text) :
    Colors ((make true .text).share c) ((make false .text).share c) := by
  rw [share_of_text rfl, share_of_text rfl]
  -- Colours are put around tags only; the rest of each line is a text that is free of them.
  cases c with
  | started c =>
      have hsuite : Free c.suite := h _ List.mem_cons_self
      have hname : Free c.displayName := h _ (List.mem_cons_of_mem _ List.mem_cons_self)
      have hwords : Free " Testing " ∧ Free " -> " := by decide
      have hline := colors_line (colors_tag_append (by decide : Free "Test")
        (((hwords.1.append hsuite).append hwords.2).append hname) .blue)
      simp only [← String.append_assoc] at hline
      exact hline.append .nil
  | finished c v =>
      cases v with
      | passed => exact (colors_line (colors_tag (by decide) .green)).append .nil
      | failed failure =>
          have hmessage : Free failure.message := h _ List.mem_cons_self
          have hspace : Free " " := by decide
          have hline := colors_line
            (colors_tag_append (by decide : Free "Error") (hspace.append hmessage) .red)
          have houtput : ∀ stdout stderr, failure.output = some (stdout, stderr) →
              Free stdout ∧ Free stderr := by
            intro stdout stderr heq
            rw [Call.texts, heq] at h
            exact ⟨h stdout (by simp), h stderr (by simp)⟩
          simp only [← String.append_assoc] at hline
          exact hline.append (colors_shownOutput houtput)
  | summary t =>
      rw [callLines, callLines, summaryLines, summaryLines, Emission.written, List.flatMap_append,
        Emission.written, List.flatMap_append]
      refine .append ?_ (.append ?_ .nil)
      · split
        · exact .append (.of_free (by decide)) .nil
        · exact .nil
      · refine colors_line ?_
        split
        · exact colors_tag_append (by decide) (by decide) .green
        · have hwords : Free " " ∧ Free " of " ∧ Free " tests passed" := by decide
          obtain ⟨hspace, hof, hpassed⟩ := hwords
          have htext := (((hspace.append (free_toString t.passed.toNat)).append hof).append
            (free_toString t.total.toNat)).append hpassed
          have hline := colors_tag_append (by decide : Free "Failure") htext .red
          simp only [← String.append_assoc] at hline
          exact hline

/-! ## Reports -/

section

variable (r : Reporter) (bytes : Bytes)

/-- A sink that takes everything holds the share of a call behind what it has held before. -/
theorem held_call_holding (c : Call) :
    (r.call (.holding bytes) c).2 = .holding (bytes ++ r.share c) := by
  unfold call share
  cases r.emissions c with
  | error o => rw [List.append_nil]
  | ok emissions => simp only [Sink.performAll_holding]

theorem held_callAll_holding (calls : List Call) :
    (r.callAll (.holding bytes) calls).2 = .holding (bytes ++ calls.flatMap r.share) := by
  induction calls generalizing bytes with
  | nil => rw [callAll, List.flatMap_nil, List.append_nil]
  | cons c calls ih =>
      show (r.callAll (r.call (.holding bytes) c).2 calls).2 = _
      rw [held_call_holding, ih, List.flatMap_cons, List.append_assoc]

end

/-- **The colours of a report can be deleted**, and are all that its escape characters stand for. -/
theorem delete_output_text {calls : List Call} (h : ∀ c ∈ calls, ∀ text ∈ c.texts, Free text) :
    Ansi.delete ((make true .text).output calls) = (make false .text).output calls ∧
      Ansi.escape ∉ (make false .text).output calls := by
  have houtput : ∀ r : Reporter, r.output calls = calls.flatMap r.share := by
    intro r
    have hheld := r.held_callAll_holding [] calls
    rw [List.nil_append] at hheld
    exact congrArg Sink.held hheld
  have hcolors := Colors.flatMap fun c hc => colors_share (h c hc)
  rw [houtput, houtput]
  exact ⟨hcolors.delete_eq, hcolors.escape_not_mem⟩

end Reporter

end Conformance
