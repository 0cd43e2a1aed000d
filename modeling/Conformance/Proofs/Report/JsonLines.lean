import Conformance.Proofs.Report.Emissions
import Conformance.Proofs.Report.Records
import Conformance.Proofs.Text.Utf8
import Conformance.Proofs.Walk.Completion

set_option autoImplicit false

/-! # A JSON report, read line by line

In JSON format a run writes one line for each case and one more at its end. Each of them is a JSON
text of its own, and a reader of JSON gets back from them all that there is to say of the cases and
of the totals (`View.json_report_reads_back`). No text that a case brings along, such as the name of
its file or its output, can end a line or break out of its quotes.
-/

namespace Conformance

/-! ## Lines -/

def newline : UInt8 := 0x0A

/-- Lines that are ended by newlines are split back into the lines. -/
theorem splitOn_flatMap_newline {lines : List Bytes} (h : ∀ line ∈ lines, newline ∉ line) :
    (lines.flatMap (· ++ [newline])).splitOn newline = lines ++ [[]] := by
  induction lines with
  | nil => rfl
  | cons line lines ih =>
      obtain ⟨hline, hlines⟩ := List.forall_mem_cons.mp h
      rw [List.flatMap_cons, List.append_assoc, List.singleton_append,
        List.splitOn_append_cons_self_of_not_mem hline, ih hlines]
      rfl

namespace Json

/-- The bytes of a record, without the newline that ends its line. -/
def Record.bytes (record : Record) : Bytes := Utf8.encode record.render

/-- **No byte of a record is a control character.** -/
theorem Record.le_of_mem_bytes {record : Record} {b : UInt8} (h : b ∈ record.bytes) :
    0x20 ≤ b.toNat := by
  by_cases hlow : b.toNat < 0x80
  · obtain ⟨c, hc, hcode⟩ := Utf8.mem_encode_ascii h hlow
    exact hcode ▸ le_of_mem_render hc
  · omega

theorem Record.newline_not_mem_bytes (record : Record) : newline ∉ record.bytes :=
  fun h => absurd (le_of_mem_bytes h) (by decide)

/-- Records on lines of their own are UTF-8. -/
theorem isValidUTF8_lines (records : List Record) :
    ((records.map Record.bytes).flatMap (· ++ [newline])).toByteArray.IsValidUTF8 := by
  obtain ⟨text, htext⟩ : ∃ text, (records.map Record.bytes).flatMap (· ++ [newline]) =
      Utf8.encode text := by
    induction records with
    | nil => exact ⟨"", rfl⟩
    | cons record records ih =>
        obtain ⟨text, htext⟩ := ih
        refine ⟨record.render ++ "\n" ++ text, ?_⟩
        rw [List.map_cons, List.flatMap_cons, htext, Utf8.encode_append, Utf8.encode_append]
        rfl
  exact htext ▸ ⟨text.toList, rfl⟩

end Json

/-! ## What is written -/

theorem Reporter.written_recordLine (record : Json.Record) :
    Emission.written (recordLine record ++ [.flush]) = record.bytes ++ [newline] := rfl

namespace Settings

variable {s : Settings} {outcome : TestCase → Outcome}

theorem caseReport_json (hformat : s.format = .json) (c : TestCase) :
    s.caseReport outcome c =
      (Reporter.caseRecord c (s.verdict outcome c)).bytes ++ [newline] := by
  have hstarted : Emission.written [] = [] := rfl
  simp only [caseReport, Reporter.started, Reporter.finished, Reporter.format_ofSettings, hformat,
    Reporter.written_recordLine, hstarted, List.nil_append]

theorem written_summary_json (hformat : s.format = .json) {t : Totals} {n k : Nat}
    (ht : t.Counts n k) : Emission.written (s.summary t) =
      (Reporter.summaryRecord t (t.total - t.passed)).bytes ++ [newline] := by
  simp only [summary, Reporter.summary, Reporter.format_ofSettings, hformat, ht.failed.1,
    Except.map, Reporter.written_recordLine]

/-- The records that a run with this result writes in JSON format. -/
def records (s : Settings) (outcome : TestCase → Outcome) (cs : List TestCase) :
    Except Stop Totals → List Json.Record
  | .ok t => cs.map (fun c => Reporter.caseRecord c (s.verdict outcome c)) ++
      [Reporter.summaryRecord t (t.total - t.passed)]
  | .error _ => cs.map fun c => Reporter.caseRecord c (s.verdict outcome c)

/-- **What a run writes in JSON format** are its records, each on a line of its own. -/
theorem report_json (hformat : s.format = .json) (cs : List TestCase) {r : Except Stop Totals}
    (hr : ∀ t, r = .ok t → ∃ n k, t.Counts n k) :
    s.report outcome cs ++ Emission.written (s.ending r) =
      ((s.records outcome cs r).map Json.Record.bytes).flatMap (· ++ [newline]) := by
  have hcases : s.report outcome cs =
      ((cs.map fun c => Reporter.caseRecord c (s.verdict outcome c)).map
        Json.Record.bytes).flatMap (· ++ [newline]) := by
    induction cs with
    | nil => rfl
    | cons c cs ih =>
        rw [report_cons, ih, caseReport_json hformat]
        rfl
  cases r with
  | error reason =>
      rw [hcases]
      exact List.append_nil _
  | ok t =>
      obtain ⟨n, k, ht⟩ := hr t rfl
      rw [ending, written_summary_json hformat ht, hcases]
      simp [records]

end Settings

/-! ## What is read -/

namespace Json

/-- The object of a case says that it passed if and only if it did. -/
theorem Datum.ReportsCase.saysPassed_eq {d : Datum} {s : Settings} {c : TestCase} {o : Outcome}
    (h : d.ReportsCase s c o) : d.saysPassed = o.passes := by
  obtain ⟨status, hstatus, hiff⟩ := h.status
  have hpasses : o.passes = true ↔ o.verdict s.timeout = .passed := by
    rw [← o.isPass_verdict s.timeout]
    cases o.verdict s.timeout <;> simp [Verdict.isPass]
  rw [Bool.eq_iff_iff, hpasses, ← hiff, saysPassed, hstatus]
  simp

end Json

namespace View

/-- **A JSON report is read back line by line.** It is UTF-8, has no control characters but
newlines, and is split at these into one line for each case and one more, each of them a JSON text.
Those of the cases give back, in order, all there is to say of the cases; the last one gives the
number of them, of those that say that they passed, and of the others. -/
theorem json_report_reads_back {v : View} {s : Settings} {outcome : TestCase → Outcome}
    {depth : Nat} {t : Totals} {session : Session (List TestCase)} (hformat : s.format = .json)
    (hrun : v.runSuites outcome s depth .unlimited = (.ok t, session)) :
    session.sink.held.toByteArray.IsValidUTF8 ∧
    (∀ b ∈ session.sink.held, b.toNat < 0x20 → b = newline) ∧
    ∃ (lines : List String) (cases : List Json.Datum) (last : Json.Datum),
      session.sink.held.splitOn newline = lines.map Utf8.encode ++ [[]] ∧
      lines.length = t.total.toNat + 1 ∧
      lines.map Json.read = (cases ++ [last]).map some ∧
      cases.length = session.state.length ∧
      (∀ (k : Nat) (c : TestCase) (d : Json.Datum), session.state[k]? = some c →
        cases[k]? = some d → d.ReportsCase s c (outcome c)) ∧
      last.ReportsTotals cases.length (cases.countP (·.saysPassed)) := by
  obtain ⟨sights, last, r, htrail, hfate, hrun'⟩ := exists_run_unlimited v s outcome depth
  rw [hrun, Prod.mk.injEq] at hrun'
  obtain ⟨rfl, rfl⟩ := hrun'
  cases hfate with
  | done ht =>
      rw [List.nil_append] at ht
      generalize s.scripts sights = cs at ht ⊢
      -- What is held are the records, each with a newline behind it, so that what follows is
      -- shown of records.
      have hheld :
          (Sink.holding (s.report outcome cs ++ Emission.written (s.ending (.ok t)))).held =
          ((s.records outcome cs (.ok t)).map Json.Record.bytes).flatMap (· ++ [newline]) :=
        Settings.report_json hformat cs fun _ heq => by
          cases heq
          exact ⟨_, _, ht⟩
      have hreports : ∀ c, (Reporter.caseRecord c (s.verdict outcome c)).datum.ReportsCase s c
          (outcome c) := fun c => Reporter.reportsCase_caseRecord s c (outcome c)
      refine ⟨?_, ?_, (s.records outcome cs (.ok t)).map Json.Record.render,
        cs.map (fun c => (Reporter.caseRecord c (s.verdict outcome c)).datum),
        (Reporter.summaryRecord t (t.total - t.passed)).datum, ?_, ?_, ?_, ?_, ?_, ?_⟩
      · rw [hheld]
        exact Json.isValidUTF8_lines _
      · intro b hb hlow
        rw [hheld] at hb
        obtain ⟨line, hline, hb⟩ := List.mem_flatMap.mp hb
        obtain ⟨record, -, rfl⟩ := List.mem_map.mp hline
        rcases List.mem_append.mp hb with hb | hb
        · exact absurd (Json.Record.le_of_mem_bytes hb) (Nat.not_le_of_lt hlow)
        · exact List.mem_singleton.mp hb
      · rw [hheld, splitOn_flatMap_newline]
        · rw [List.map_map]
          rfl
        · intro line hline
          obtain ⟨record, -, rfl⟩ := List.mem_map.mp hline
          exact record.newline_not_mem_bytes
      · simp [Settings.records, ht.total]
      · simp [Settings.records, Json.read_render]
      · simp
      · intro k c d hc hd
        rw [List.getElem?_map, hc] at hd
        cases hd
        exact hreports c
      · have hcount : (cs.map fun c => (Reporter.caseRecord c (s.verdict outcome c)).datum).countP
            (·.saysPassed) = cs.countP fun c => (outcome c).passes := by
          rw [List.countP_map]
          exact List.countP_congr fun c _ => by simp [(hreports c).saysPassed_eq]
        rw [hcount, List.length_map]
        exact Reporter.reportsTotals_summaryRecord ht

/-- On the sample there are three objects and one more. -/
theorem json_report_reads_back_sample :
    ∃ (depth : Nat) (t : Totals) (session : Session (List TestCase)) (lines : List String)
      (cases : List Json.Datum) (last : Json.Datum),
      sampleListed.runSuites sampleOutcome (Settings.sample.withFormat .json) depth .unlimited =
        (.ok t, session) ∧
      session.sink.held.splitOn newline = lines.map Utf8.encode ++ [[]] ∧
      lines.map Json.read = (cases ++ [last]).map some ∧
      cases.length = 3 ∧ last.ReportsTotals 3 (cases.countP (·.saysPassed)) := by
  obtain ⟨t, -, depth, hdepth⟩ := returns_of_end (s := Settings.sample.withFormat .json)
    sampleOutcome trail_sampleListed (by decide)
  have hrun := hdepth depth (Nat.le_refl depth)
  obtain ⟨-, -, lines, cases, last, hsplit, -, hread, hlength, -, hlast⟩ :=
    json_report_reads_back rfl hrun
  have hscripts : ((Settings.sample.withFormat .json).scripts sampleSights).length = 3 := by decide
  have hthree : cases.length = 3 := hlength.trans hscripts
  exact ⟨depth, t, _, lines, cases, last, hrun, hsplit, hread, hthree, hthree ▸ hlast⟩

end View

end Conformance
