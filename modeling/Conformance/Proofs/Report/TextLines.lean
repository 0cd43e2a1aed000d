import Conformance.Proofs.Report.Summary
import Conformance.Proofs.Text.Lines
import Conformance.Proofs.Walk.Completion
import Conformance.Proofs.Walk.Log

set_option autoImplicit false

/-! # A report in lines, counted

In text format a report is read by people, but its lines can be counted by the labels that they begin
with (`Label`): there is a `[Test]` line for every case, and behind it a `[Passed]` or an `[Error]` line.
What can spoil the count are the texts that a case brings along. Names and messages must not have a
newline, and no line of the output that is shown must begin with a bracket (`Legible`).

Output is shown without the line ends at its end, which takes nothing from its lines but carriage returns
(`exists_line_of_trimmed`). A report of a run that has come to its end is then a list of lines that says
how many cases there were and how many passed (`Walk.text_report_counts`).
-/

namespace Conformance

/-! ## Bytes that are lines -/

/-- **Bytes that are these lines**, each with a newline behind it. -/
structure Ruled (bytes : Bytes) (lines : List String) : Prop where
  eq : bytes = lines.flatMap fun line => Utf8.encode line ++ [newline]
  newline_not_mem : ∀ line ∈ lines, '\n' ∉ line.toList

namespace Ruled

variable {bytes more : Bytes} {lines moreLines : List String}

theorem nil : Ruled [] [] := ⟨rfl, fun _ h => nomatch h⟩

theorem append (h : Ruled bytes lines) (h' : Ruled more moreLines) :
    Ruled (bytes ++ more) (lines ++ moreLines) where
  eq := by rw [h.eq, h'.eq, List.flatMap_append]
  newline_not_mem := List.forall_mem_append.mpr ⟨h.newline_not_mem, h'.newline_not_mem⟩

/-- **The lines are found at the newlines.** -/
theorem splitOn_eq (h : Ruled bytes lines) :
    bytes.splitOn newline = lines.map Utf8.encode ++ [[]] := by
  have hbytes : bytes = (lines.map Utf8.encode).flatMap (· ++ [newline]) := by
    rw [h.eq, List.flatMap_map]
  rw [hbytes]
  refine splitOn_flatMap_newline fun line hline => ?_
  obtain ⟨text, htext, rfl⟩ := List.mem_map.mp hline
  exact newline_not_mem_encode (h.newline_not_mem text htext)

end Ruled

theorem ruled_line {text : String} (h : '\n' ∉ text.toList) :
    Ruled (Reporter.line text).bytes [text] where
  eq := by rw [Reporter.bytes_line, List.flatMap_singleton]
  newline_not_mem := List.forall_mem_singleton.mpr h

/-- The lines of a text with a newline behind it. -/
def textLines (text : String) : List String := (linesOf (text.toList ++ ['\n'])).map String.ofList

/-- **Any text is some lines.** -/
theorem ruled_textLines (text : String) : Ruled (Reporter.line text).bytes (textLines text) where
  eq := by
    have hlines := (lines_linesOf (text.toList ++ ['\n'])).eq_flatMap (closed_append_newline _)
    have hchars : ∀ lines : List (List Char),
        Utf8.encode (String.ofList (lines.flatMap (· ++ ['\n']))) =
          (lines.map String.ofList).flatMap fun line => Utf8.encode line ++ [newline] := by
      intro lines
      induction lines with
      | nil => rfl
      | cons line lines ih =>
          rw [List.flatMap_cons, String.ofList_append, Utf8.encode_append, ih, String.ofList_append,
            Utf8.encode_append, List.map_cons, List.flatMap_cons]
          rfl
    calc (Reporter.line text).bytes = Utf8.encode (String.ofList (text.toList ++ ['\n'])) := by
          rw [String.ofList_append, String.ofList_toList]
          rfl
      _ = (textLines text).flatMap fun line => Utf8.encode line ++ [newline] := by
          rw [hlines, hchars]
          rfl
  newline_not_mem := by
    intro line hline
    obtain ⟨chars, hchars, rfl⟩ := List.mem_map.mp hline
    rw [String.toList_ofList]
    exact (lines_linesOf _).newline_not_mem chars hchars

/-! ## Labels -/

/-- The labels that lines of a report begin with. -/
inductive Label where
  | test
  | passed
  | error
  | success
  | failure
  deriving DecidableEq, Repr

namespace Label

def text : Label → String
  | .test => "[Test]"
  | .passed => "[Passed]"
  | .error => "[Error]"
  | .success => "[Success]"
  | .failure => "[Failure]"

def begins (label : Label) (line : String) : Bool := label.text.toList.isPrefixOf line.toList

/-- **A line begins with one label at most.** -/
theorem begins_append (label other : Label) (rest : String) :
    label.begins (other.text ++ rest) = decide (label = other) := by
  unfold begins
  rw [String.toList_append]
  cases label <;> cases other <;> rfl

theorem begins_text (label other : Label) : label.begins other.text = decide (label = other) := by
  rw [← begins_append label other "", String.append_empty]

/-- A line that does not begin with a bracket begins with no label. -/
theorem begins_of_head {line : String} (h : line.toList.head? ≠ some '[') (label : Label) :
    label.begins line = false := by
  unfold begins
  cases hchars : line.toList with
  | nil => cases label <;> rfl
  | cons c cs =>
      rw [hchars] at h
      have hc : ('[' == c) = false := by
        rw [beq_eq_false_iff_ne]
        rintro rfl
        exact h rfl
      cases label <;> simp [text, List.isPrefixOf, hc]

end Label

/-! ## Output that is shown -/

/-- No line of the text begins with a bracket. -/
def Unmarked (text : String) : Prop := ∀ line ∈ linesOf text.toList, line.head? ≠ some '['

/-- **What the lines of a beginning begin with, the lines of the whole begin with.** -/
theorem exists_line_of_trimmed {front line : List Char} {c : Char} (tail : List Char)
    (hline : line ∈ linesOf (front ++ ['\n'])) (hc : line.head? = some c) :
    ∃ whole ∈ linesOf (front ++ tail), whole.head? = some c := by
  -- Up to its last newline the beginning has the lines of the whole; behind it both begin alike.
  induction hlength : front.length using Nat.strong_induction_on generalizing front with
  | _ n ih =>
      subst hlength
      by_cases hnewline : '\n' ∈ front
      · obtain ⟨first, rest, rfl, hfirst⟩ := List.eq_append_cons_of_mem hnewline
        rw [List.append_assoc, List.cons_append, linesOf_append_newline hfirst] at hline ⊢
        rcases List.mem_cons.mp hline with rfl | hrest
        · exact ⟨line, List.mem_cons_self, hc⟩
        · have hshorter : rest.length < (first ++ '\n' :: rest).length := by
            rw [List.length_append, List.length_cons]
            omega
          obtain ⟨whole, hwhole, hhead⟩ := ih rest.length hshorter hrest rfl
          exact ⟨whole, List.mem_cons_of_mem _ hwhole, hhead⟩
      · have hone : linesOf (front ++ ['\n']) = [front] := linesOf_append_newline hnewline []
        rw [hone, List.mem_singleton] at hline
        subst hline
        cases line with
        | nil => cases hc
        | cons d rest =>
            cases hc
            have hd : c ≠ '\n' := fun heq => hnewline (heq ▸ List.mem_cons_self)
            refine ⟨c :: (linesOf (rest ++ tail)).headD [], ?_, rfl⟩
            rw [List.cons_append, linesOf_cons hd]
            exact List.mem_cons_self

/-- **The lines of a stream that is shown** begin with no label, if no line of the stream begins with a
bracket. -/
theorem begins_of_mem_shown {stream line : String} (h : Unmarked stream)
    (hline : line ∈ textLines (trimLineEnds stream)) (label : Label) :
    label.begins line = false := by
  obtain ⟨chars, hchars, rfl⟩ := List.mem_map.mp hline
  obtain ⟨⟨tail, hsplit, -⟩, -⟩ := exists_dropTail isLineEnd stream.toList
  refine Label.begins_of_head (fun hhead => ?_) label
  rw [trimLineEnds, String.toList_ofList] at hchars
  rw [String.toList_ofList] at hhead
  obtain ⟨whole, hwhole, hhead'⟩ := exists_line_of_trimmed tail hchars hhead
  rw [← hsplit] at hwhole
  exact h whole hwhole hhead'

/-! ## The lines of a case -/

/-- **Texts that leave the lines of a report apart.** -/
structure Legible (c : TestCase) (v : Verdict) : Prop where
  suite : '\n' ∉ c.suite.toList
  displayName : '\n' ∉ c.displayName.toList
  message : ∀ failure, v = .failed failure → '\n' ∉ failure.message.toList
  output : ∀ failure stdout stderr, v = .failed failure → failure.output = some (stdout, stderr) →
    Unmarked stdout ∧ Unmarked stderr

namespace Reporter

/-- The `[Passed]` or `[Error]` line of a case. -/
def verdictLine (r : Reporter) : Verdict → String
  | .passed => r.tag "Passed" .green
  | .failed failure => r.tag "Error" .red ++ " " ++ failure.message

def outputLines : Verdict → List String
  | .passed => []
  | .failed failure =>
    match failure.output with
    | none => []
    | some (stdout, stderr) =>
      ([stdout, stderr].filter (· ≠ "")).flatMap fun stream => textLines (trimLineEnds stream)

/-- The lines of a case. -/
def caseLines (r : Reporter) (c : TestCase) (v : Verdict) : List String :=
  r.startedLine c :: r.verdictLine v :: outputLines v

/-- The lines of cases. -/
def reportLines (r : Reporter) (told : Told) : List String :=
  told.flatMap fun (c, v) => r.caseLines c v

section

variable {r : Reporter} (hcolor : r.color = false)
include hcolor

theorem tag_of_plain (label : String) (color : Color) :
    r.tag label color = "[" ++ label ++ "]" := by
  rw [tag, if_neg (by rw [hcolor]; exact Bool.false_ne_true)]

theorem startedLine_eq (c : TestCase) :
    r.startedLine c = Label.test.text ++ (" Testing " ++ c.suite ++ " -> " ++ c.displayName) := by
  rw [startedLine, tag_of_plain hcolor]
  simp only [String.append_assoc]
  rfl

theorem verdictLine_failed (failure : Failure) :
    r.verdictLine (.failed failure) = Label.error.text ++ (" " ++ failure.message) := by
  rw [verdictLine, tag_of_plain hcolor, String.append_assoc]
  rfl

theorem verdictLine_passed : r.verdictLine .passed = Label.passed.text := tag_of_plain hcolor _ _

/-! ### What they begin with -/

theorem begins_startedLine (label : Label) (c : TestCase) :
    label.begins (r.startedLine c) = decide (label = .test) := by
  rw [startedLine_eq hcolor, Label.begins_append]

theorem begins_verdictLine (label : Label) (v : Verdict) :
    label.begins (r.verdictLine v) = decide (label = if v.isPass then .passed else .error) := by
  cases v with
  | passed => rw [verdictLine_passed hcolor, Label.begins_text]; rfl
  | failed failure => rw [verdictLine_failed hcolor, Label.begins_append]; rfl

omit hcolor in
theorem begins_outputLines {c : TestCase} {v : Verdict} (h : Legible c v) {line : String}
    (hline : line ∈ outputLines v) (label : Label) : label.begins line = false := by
  cases v with
  | passed => cases hline
  | failed failure =>
      rw [outputLines] at hline
      cases houtput : failure.output with
      | none =>
          rw [houtput] at hline
          cases hline
      | some streams =>
          obtain ⟨hstdout, hstderr⟩ := h.output failure _ _ rfl houtput
          rw [houtput] at hline
          obtain ⟨stream, hstream, hline⟩ := List.mem_flatMap.mp hline
          have hmem := List.mem_of_mem_filter hstream
          rw [List.mem_cons, List.mem_singleton] at hmem
          rcases hmem with rfl | rfl
          · exact begins_of_mem_shown hstdout hline label
          · exact begins_of_mem_shown hstderr hline label

/-! ### How they are written -/

omit hcolor in
theorem ruled_outputLines (failure : Failure) :
    Ruled (Emission.written (shownOutput failure)) (outputLines (.failed failure)) := by
  have hstreams : ∀ streams : List String,
      Ruled (Emission.written (streams.map fun stream => line (trimLineEnds stream)))
        (streams.flatMap fun stream => textLines (trimLineEnds stream)) := by
    intro streams
    induction streams with
    | nil => exact .nil
    | cons stream streams ih => exact (ruled_textLines _).append ih
  cases houtput : failure.output with
  | none =>
      simp only [shownOutput, outputLines, houtput]
      exact .nil
  | some streams =>
      simp only [shownOutput, outputLines, houtput]
      exact hstreams _

/-- **A case is written in its lines.** -/
theorem ruled_caseLines (hformat : r.format = .text) {c : TestCase} {v : Verdict}
    (h : Legible c v) :
    Ruled (Emission.written (r.started c) ++ Emission.written (r.finished c v))
      (r.caseLines c v) := by
  have hstarted : Ruled (Emission.written (r.started c)) [r.startedLine c] := by
    have hplain : '\n' ∉ (r.startedLine c).toList := by
      rw [startedLine_eq hcolor]
      simp [Label.text, h.suite, h.displayName]
    rw [started, hformat]
    exact (ruled_line hplain).append .nil
  have hfinished : Ruled (Emission.written (r.finished c v)) (r.verdictLine v :: outputLines v) := by
    rw [finished, hformat]
    show Ruled (Emission.written (r.verdictLines v ++ [.flush])) _
    rw [Emission.written_append_flush]
    cases v with
    | passed =>
        refine (ruled_line ?_).append .nil
        rw [tag_of_plain hcolor]
        decide
    | failed failure =>
        refine (ruled_line ?_).append (ruled_outputLines failure)
        rw [tag_of_plain hcolor]
        simp [h.message failure rfl]
  exact hstarted.append hfinished

/-- **The lines of cases are those of each case.** -/
theorem ruled_reportLines (hformat : r.format = .text) {told : Told}
    (h : ∀ c v, (c, v) ∈ told → Legible c v) : Ruled (told.report r) (r.reportLines told) := by
  induction told with
  | nil => exact .nil
  | cons entry told ih =>
      have hcase := ruled_caseLines hcolor hformat (h entry.1 entry.2 List.mem_cons_self)
      exact hcase.append (ih fun c v hmem => h c v (List.mem_cons_of_mem _ hmem))

end

end Reporter

/-! ### How many there are -/

/-- How many lines of a report begin with the label, its last line apart. -/
def Label.tally : Label → Told → ℕ
  | .test, told => told.length
  | .passed, told => told.passes
  | .error, told => told.length - told.passes
  | .success, _ | .failure, _ => 0

theorem Told.passes_le_length (told : Told) : told.passes ≤ told.length := List.countP_le_length

theorem Label.tally_cons (label : Label) (c : TestCase) (v : Verdict) (told : Told) :
    label.tally ((c, v) :: told) = label.tally [(c, v)] + label.tally told := by
  have hpasses : ∀ told : Told, Told.passes ((c, v) :: told) = Told.passes [(c, v)] + told.passes :=
    fun told => Told.passes_append [(c, v)] told
  have hone := Told.passes_le_length [(c, v)]
  have hle := told.passes_le_length
  rw [List.length_singleton] at hone
  cases label with
  | test => exact Nat.add_comm told.length 1
  | passed => exact hpasses told
  | error =>
      show told.length + 1 - Told.passes ((c, v) :: told) =
        1 - Told.passes [(c, v)] + (told.length - told.passes)
      rw [hpasses told]
      omega
  | success | failure => rfl

theorem exists_append_of_not_mem {α : Type} {front rest before after : List α} {x : α}
    (h : front ++ rest = before ++ x :: after) (hx : x ∉ front) :
    ∃ others, before = front ++ others ∧ rest = others ++ x :: after := by
  rcases List.append_eq_append_iff.mp h with ⟨others, hbefore, hrest⟩ | ⟨others, hfront, hrest⟩
  · exact ⟨others, hbefore, hrest⟩
  · cases others with
    | nil => exact ⟨[], by simpa using hfront.symm, hrest.symm⟩
    | cons other others =>
        obtain ⟨rfl, -⟩ := List.cons.inj hrest
        exact absurd (hfront ▸ List.mem_append_right _ List.mem_cons_self) hx

namespace Reporter

variable {r : Reporter} (hcolor : r.color = false)
include hcolor

/-- **A case has one line of its own for its start and one for its verdict.** -/
theorem countP_caseLines {c : TestCase} {v : Verdict} (h : Legible c v) (label : Label) :
    (r.caseLines c v).countP label.begins = label.tally [(c, v)] := by
  have houtput : (outputLines v).countP label.begins = 0 :=
    List.countP_eq_zero.mpr fun line hline => by rw [begins_outputLines h hline]; exact Bool.false_ne_true
  rw [caseLines, List.countP_cons, List.countP_cons, houtput, begins_startedLine hcolor,
    begins_verdictLine hcolor]
  cases label <;> cases v <;> rfl

/-- **The lines of a report are counted by their labels.** -/
theorem countP_reportLines {told : Told} (h : ∀ c v, (c, v) ∈ told → Legible c v) (label : Label) :
    (r.reportLines told).countP label.begins = label.tally told := by
  induction told with
  | nil => cases label <;> rfl
  | cons entry told ih =>
      obtain ⟨c, v⟩ := entry
      have hrest := ih fun c v hmem => h c v (List.mem_cons_of_mem _ hmem)
      show (r.caseLines c v ++ r.reportLines told).countP label.begins = _
      rw [List.countP_append, countP_caseLines hcolor (h c v List.mem_cons_self), hrest,
        ← Label.tally_cons]

/-- **Behind the `[Test]` line of a case is the line of its own verdict.** -/
theorem exists_of_test_line {told : Told} (h : ∀ c v, (c, v) ∈ told → Legible c v)
    {ending before after : List String} {line : String}
    (hending : ∀ line ∈ ending, Label.test.begins line = false)
    (hlines : r.reportLines told ++ ending = before ++ line :: after)
    (htest : Label.test.begins line = true) :
    ∃ c v rest, told[before.countP Label.test.begins]? = some (c, v) ∧ line = r.startedLine c ∧
      after = r.verdictLine v :: rest := by
  induction told generalizing before with
  | nil =>
      have hmem : line ∈ ending := by
        rw [show ending = before ++ line :: after from hlines]
        exact List.mem_append_right _ List.mem_cons_self
      rw [hending line hmem] at htest
      cases htest
  | cons entry told ih =>
      obtain ⟨c, v⟩ := entry
      have hcase : r.startedLine c :: (r.verdictLine v :: outputLines v ++
          (r.reportLines told ++ ending)) = before ++ line :: after := by
        rw [← hlines]
        show _ = r.caseLines c v ++ r.reportLines told ++ ending
        rw [List.append_assoc]
        rfl
      cases before with
      | nil =>
          obtain ⟨rfl, rfl⟩ := List.cons.inj hcase
          exact ⟨c, v, _, rfl, rfl, rfl⟩
      | cons first before =>
          obtain ⟨rfl, hbehind⟩ := List.cons.inj hcase
          -- No other line of the case begins with the label, so that the line is behind all of them.
          have hother : ∀ line ∈ r.verdictLine v :: outputLines v, Label.test.begins line = false := by
            refine List.forall_mem_cons.mpr ⟨?_, fun line hline => ?_⟩
            · rw [begins_verdictLine hcolor]
              cases v <;> rfl
            · exact begins_outputLines (h c v List.mem_cons_self) hline _
          have hnot : line ∉ r.verdictLine v :: outputLines v := by
            intro hmem
            rw [hother line hmem] at htest
            cases htest
          obtain ⟨others, rfl, hlater⟩ := exists_append_of_not_mem hbehind hnot
          obtain ⟨c', v', rest, hentry, hline, hafter⟩ :=
            ih (fun c v hmem => h c v (List.mem_cons_of_mem _ hmem)) hlater
          refine ⟨c', v', rest, ?_, hline, hafter⟩
          have hcount : (r.startedLine c :: (r.verdictLine v :: outputLines v ++ others)).countP
              Label.test.begins = others.countP Label.test.begins + 1 := by
            have hnone : (r.verdictLine v :: outputLines v).countP Label.test.begins = 0 :=
              List.countP_eq_zero.mpr fun line hline => by
                rw [hother line hline]
                exact Bool.false_ne_true
            rw [List.countP_cons_of_pos (by rw [begins_startedLine hcolor]; rfl),
              List.countP_append, hnone, Nat.zero_add]
          rw [hcount]
          exact hentry

/-! ## The last line -/

/-- **The last line says whether all have passed.** -/
theorem begins_summaryText (label : Label) (n k : ℕ) :
    label.begins (r.summaryText n k) =
      decide (label = if k = n then .success else .failure) := by
  unfold summaryText
  rw [tag_of_plain hcolor, tag_of_plain hcolor]
  split
  · exact label.begins_append .success " All tests passed!"
  · rw [String.append_assoc, String.append_assoc, String.append_assoc, String.append_assoc]
    exact label.begins_append .failure _

omit hcolor in
theorem ruled_summaryLines {t : Totals} {n k : ℕ} (ht : t.Counts n k) :
    Ruled (Emission.written (r.summaryLines t))
      ((if 0 < t.total then [""] else []) ++ [r.summaryText n k]) := by
  have hlast := (ruled_line (r.newline_not_mem_summaryText n k)).append .nil
  rw [r.summaryLines_eq ht, Emission.written, List.flatMap_append]
  refine .append ?_ hlast
  split
  · exact (ruled_line (by decide)).append .nil
  · exact .nil

/-! ## Whole reports -/

/-- The lines of a whole report: those of its cases, and those of the summary. -/
def wholeLines (r : Reporter) (told : Told) (t : Totals) : List String :=
  r.reportLines told ++ ((if 0 < t.total then [""] else []) ++ [r.summaryText told.length told.passes])

/-- What stands behind the lines of the cases begins with no label but that of the last line. -/
theorem begins_of_mem_ending {t : Totals} {n k : ℕ} {line : String}
    (hline : line ∈ (if 0 < t.total then [""] else []) ++ [r.summaryText n k]) {label : Label}
    (hlabel : label ≠ if k = n then .success else .failure) : label.begins line = false := by
  rcases List.mem_append.mp hline with hline | hline
  · split at hline
    · rw [List.mem_singleton.mp hline]
      cases label <;> rfl
    · cases hline
  · rw [List.mem_singleton.mp hline, begins_summaryText hcolor, decide_eq_false hlabel]

theorem countP_wholeLines {told : Told} (h : ∀ c v, (c, v) ∈ told → Legible c v) (t : Totals)
    (label : Label) (hsuccess : label ≠ .success) (hfailure : label ≠ .failure) :
    (r.wholeLines told t).countP label.begins = label.tally told := by
  have hlabel : label ≠ if told.passes = told.length then .success else .failure := by
    split
    · exact hsuccess
    · exact hfailure
  have hnone : ((if 0 < t.total then [""] else []) ++
      [r.summaryText told.length told.passes]).countP label.begins = 0 :=
    List.countP_eq_zero.mpr fun line hline => by
      rw [begins_of_mem_ending hcolor hline hlabel]
      exact Bool.false_ne_true
  rw [wholeLines, List.countP_append, countP_reportLines hcolor h, hnone, Nat.add_zero]

end Reporter

/-- **Lines that tell of cases**, with the verdicts `judged` on them, and of the totals `t`. -/
structure Recounts (r : Reporter) (judged : List (TestCase × Except Error Verdict)) (t : Totals)
    (lines : List String) : Prop where
  test : lines.countP Label.test.begins = t.total.toNat
  passed : lines.countP Label.passed.begins = t.passed.toNat
  error : lines.countP Label.error.begins = t.total.toNat - t.passed.toNat
  /-- Behind a `[Test]` line is the line of the verdict on the same case. -/
  verdict : ∀ before line after, lines = before ++ line :: after → Label.test.begins line = true →
    ∃ c v rest, judged[before.countP Label.test.begins]? = some (c, .ok v) ∧
      line = r.startedLine c ∧ after = r.verdictLine v :: rest ∧
      (if v.isPass then Label.passed else Label.error).begins (r.verdictLine v) = true
  /-- The last line, and no other, tells a success or a failure. -/
  last : ∃ front last, lines = front ++ [last] ∧
    (Label.success.begins last = true ∨ Label.failure.begins last = true) ∧
    (∀ line ∈ front, Label.success.begins line = false ∧ Label.failure.begins line = false) ∧
    (t.total = 0 → front = []) ∧ (0 < t.total → front.getLast? = some "") ∧
    (Label.success.begins last = true ↔ ∀ line ∈ lines, Label.error.begins line = false)

/-- **A report tells of its cases** and of the totals that count them. -/
theorem recounts_wholeLines {r : Reporter} (hcolor : r.color = false) {told : Told} {t : Totals}
    (ht : t.Counts told.length told.passes) (h : ∀ c v, (c, v) ∈ told → Legible c v) :
    Recounts r told.judged t (r.wholeLines told t) where
  test := by
    rw [Reporter.countP_wholeLines hcolor h t .test nofun nofun, ht.total]
    rfl
  passed := by
    rw [Reporter.countP_wholeLines hcolor h t .passed nofun nofun, ht.passed]
    rfl
  error := by
    rw [Reporter.countP_wholeLines hcolor h t .error nofun nofun, ht.total, ht.passed]
    rfl
  verdict := by
    intro before line after hlines htest
    have hending : ∀ line ∈ (if 0 < t.total then [""] else []) ++
        [r.summaryText told.length told.passes], Label.test.begins line = false :=
      fun line hline => Reporter.begins_of_mem_ending hcolor hline (by split <;> exact nofun)
    obtain ⟨c, v, rest, hentry, hline, hafter⟩ :=
      Reporter.exists_of_test_line hcolor h hending hlines htest
    refine ⟨c, v, rest, ?_, hline, hafter, ?_⟩
    · rw [Told.judged, List.getElem?_map, hentry]
      rfl
    · rw [Reporter.begins_verdictLine hcolor]
      exact decide_eq_true rfl
  last := by
    have hlast := fun label : Label =>
      Reporter.begins_summaryText (r := r) hcolor label told.length told.passes
    refine ⟨r.reportLines told ++ (if 0 < t.total then [""] else []), _,
      (List.append_assoc _ _ _).symm, ?_, ?_, ?_, ?_, ?_⟩
    · rw [hlast, hlast, decide_eq_true_iff, decide_eq_true_iff]
      split
      · exact Or.inl rfl
      · exact Or.inr rfl
    -- No line before the last begins as a summary does: of these labels a report has none.
    · have hfree : ∀ label : Label, label.tally told = 0 → ∀ line ∈ r.reportLines told,
          label.begins line = false := by
        intro label htally line hline
        rw [← Reporter.countP_reportLines hcolor h, List.countP_eq_zero] at htally
        exact Bool.eq_false_iff.mpr (htally line hline)
      intro line hline
      rcases List.mem_append.mp hline with hline | hline
      · exact ⟨hfree .success rfl line hline, hfree .failure rfl line hline⟩
      · split at hline
        · rw [List.mem_singleton.mp hline]
          exact ⟨rfl, rfl⟩
        · cases hline
    · intro hzero
      have hlength : told.length = 0 := by
        rw [← ht.total, hzero]
        rfl
      have hnot : ¬ 0 < t.total := by
        rw [hzero]
        decide
      rw [List.length_eq_zero_iff.mp hlength, if_neg hnot]
      rfl
    · intro hpos
      rw [if_pos hpos, List.getLast?_concat]
    · -- No line begins with `[Error]` if and only if there are as many passes as cases.
      have hnone : (∀ line ∈ r.wholeLines told t, Label.error.begins line = false) ↔
          told.length - told.passes = 0 := by
        rw [← show Label.error.tally told = told.length - told.passes from rfl,
          ← Reporter.countP_wholeLines hcolor h t .error nofun nofun, List.countP_eq_zero]
        simp only [Bool.not_eq_true]
      have hle := told.passes_le_length
      rw [hnone, hlast, decide_eq_true_iff]
      split
      · simp [*]
      · next hne => simp; omega

/-! ## Runs -/

/-- **The report of a run in text format without colour can be counted**, if no name and no message has a
newline and no line of the output that is shown begins with a bracket. Of its lines as many begin with
`[Test]`, `[Passed]` and `[Error]` as cases were run, have passed and have not. The line behind a
`[Test]` line is that of the verdict on the same case. The last line, and no other, begins with
`[Success]` or `[Failure]`; it is the only line of a run without cases, and stands behind an empty line
otherwise; and it tells a success if and only if no line begins with `[Error]`. -/
theorem Walk.text_report_counts {σ : Type} {m : Machine σ} {s : Settings} {depth : ℕ}
    {a b : Session σ} {t : Totals} (hformat : s.format = .text) (hcolor : s.color = false)
    (hrun : runSuites m s depth a = (.ok t, b))
    (hlegible : ∀ c v, (c, .ok v) ∈ (executed m s depth a).judged s.timeout → Legible c v) :
    ∃ (bytes : Bytes) (lines : List String), b.sink.held = a.sink.held ++ bytes ∧
      bytes.splitOn newline = lines.map Utf8.encode ++ [[]] ∧
      Recounts (Reporter.ofSettings s) ((executed m s depth a).judged s.timeout) t lines := by
  obtain ⟨told, emissions, hjudged, hcounts, hsummary, hheld⟩ := told_of_runSuites hrun
  have hplain : (Reporter.ofSettings s).color = false := by
    simp [Reporter.ofSettings, Reporter.make, hcolor]
  have htext : (Reporter.ofSettings s).format = .text := hformat
  rw [hjudged] at hlegible ⊢
  have htold : ∀ c v, (c, v) ∈ told → Legible c v :=
    fun c v hmem => hlegible c v (List.mem_map.mpr ⟨(c, v), hmem, rfl⟩)
  have hemissions : Emission.written emissions =
      Emission.written ((Reporter.ofSettings s).summaryLines t) := by
    rw [Reporter.summary, htext] at hsummary
    cases hsummary
    exact Emission.written_append_flush _
  have hruled := (Reporter.ruled_reportLines hplain htext htold).append
    (Reporter.ruled_summaryLines (r := Reporter.ofSettings s) hcounts)
  rw [← hemissions] at hruled
  exact ⟨_, _, hheld, hruled.splitOn_eq, recounts_wholeLines hplain hcounts htold⟩

/-- What comes of the cases of the sample here: one passes and has written a line that would be counted,
one fails and has written a line and two newlines, and one is lost. -/
def View.sampleShown (c : TestCase) : Outcome :=
  if c.path = .ofText "t/a.lua" then .ok ⟨.exited 0, Utf8.encode "[Error]\n", []⟩
  else if c.path = .ofText "t/c.lua" then .error (.lost .notText)
  else .ok ⟨.exited 1, Utf8.encode "no\r[x]\r\n\r\n", Utf8.encode "\n\n"⟩

/-- The report on the sample tells of its three cases. -/
theorem Walk.text_report_counts_sample :
    ∃ depth t b, runSuites (View.sampleListed.machineOf View.sampleShown) .sample depth
        ⟨[], .unlimited⟩ = (.ok t, b) ∧ t.total.toNat = 3 ∧ t.passed.toNat = 1 ∧
      ∃ (bytes : Bytes) (lines : List String), b.sink.held = bytes ∧
        bytes.splitOn newline = lines.map Utf8.encode ++ [[]] ∧
        Recounts (Reporter.ofSettings .sample) ((executed (View.sampleListed.machineOf View.sampleShown)
          .sample depth ⟨[], .unlimited⟩).judged Settings.sample.timeout) t lines := by
  obtain ⟨t, ht, depth, hdepth⟩ := View.returns_of_end (s := .sample) View.sampleShown
    View.trail_sampleListed (by decide)
  have hrun := hdepth depth le_rfl
  refine ⟨depth, t, _, hrun, ht.total, ht.passed, ?_⟩
  refine text_report_counts (s := .sample) rfl rfl hrun fun c v hmem => ?_
  have hjudged : (executed (View.sampleListed.machineOf View.sampleShown) .sample depth
      ⟨[], .unlimited⟩).judged Settings.sample.timeout =
      (Settings.sample.scripts View.sampleSights).map fun c =>
        (c, .ok ((View.sampleShown c).verdict Settings.sample.timeout)) := by
    have hstate : (runSuites (View.sampleListed.machine fun c => (View.sampleShown c).result) .sample
        depth ⟨[], .unlimited⟩).2.state = Settings.sample.scripts View.sampleSights :=
      congrArg (·.2.state) hrun
    rw [View.machineOf, executed_machine, hstate, Log.judged, List.map_map]
    exact List.map_congr_left fun c _ => congrArg (c, ·) (Outcome.classifyRun_result _ _)
  rw [hjudged, show Settings.sample.scripts View.sampleSights =
    [⟨.ofText "t/a.lua"⟩, ⟨.ofText "t/b.lua/d.lua"⟩, ⟨.ofText "t/c.lua"⟩] by decide] at hmem
  simp only [List.map_cons, List.map_nil, List.mem_cons, List.not_mem_nil, or_false] at hmem
  rcases hmem with h | h | h
  · cases h
    refine ⟨by decide, by decide +kernel, fun failure hfailed => ?_, fun failure _ _ hfailed => ?_⟩
    · cases hfailed
    · cases hfailed
  · cases h
    refine ⟨by decide, by decide +kernel, fun failure hfailed => ?_,
      fun failure stdout stderr hfailed houtput => ?_⟩
    · cases hfailed
      decide
    · cases hfailed
      cases houtput
      exact ⟨by unfold Unmarked; decide, by unfold Unmarked; decide⟩
  · cases h
    refine ⟨by decide, by decide +kernel, fun failure hfailed => ?_,
      fun failure _ _ hfailed houtput => ?_⟩
    · cases hfailed
      decide
    · cases hfailed
      cases houtput

end Conformance
