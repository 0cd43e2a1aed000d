import Conformance.Report.Reporter

set_option autoImplicit false

/-! # What a reporter emits

Whatever a reporter has to say, it says it in lines of text or in records, each record with its
newline after it; and it flushes. `Reporter.Emits` lists these emissions, and every step of a
reporter consists of them (`Reporter.emits_started`, `Reporter.emits_finished`,
`Reporter.emits_summary`).
-/

namespace Conformance

namespace Reporter

/-- **The emissions of a reporter**, by its format. -/
inductive Emits (r : Reporter) : Emission → Prop
  | flush : Emits r .flush
  | line (text : String) : r.format = .text → Emits r (line text)
  | record (record : Json.Record) : r.format = .json → Emits r (.write .record record.render)
  | newline : r.format = .json → Emits r (line "")

@[simp] theorem format_ofSettings (s : Settings) : (ofSettings s).format = s.format := rfl

section

variable {r : Reporter} {e : Emission}

theorem exists_line_of_mem_verdictLines {v : Verdict} (h : e ∈ r.verdictLines v) :
    ∃ text, e = Reporter.line text := by
  cases v with
  | passed => exact ⟨_, List.mem_singleton.mp h⟩
  | failed failure =>
      rcases List.mem_cons.mp h with rfl | h
      · exact ⟨_, rfl⟩
      · unfold shownOutput at h
        split at h
        · cases h
        · obtain ⟨stream, -, rfl⟩ := List.mem_map.mp h
          exact ⟨_, rfl⟩

theorem exists_line_of_mem_summaryLines {t : Totals} (h : e ∈ r.summaryLines t) :
    ∃ text, e = Reporter.line text := by
  rcases List.mem_append.mp h with h | h
  · split at h
    · exact ⟨_, List.mem_singleton.mp h⟩
    · cases h
  · exact ⟨_, List.mem_singleton.mp h⟩

theorem emits_lines (hformat : r.format = .text) {lines : List Emission}
    (hlines : ∀ e ∈ lines, ∃ text, e = Reporter.line text) (h : e ∈ lines ++ [.flush]) :
    r.Emits e := by
  rcases List.mem_append.mp h with h | h
  · obtain ⟨text, rfl⟩ := hlines e h
    exact .line text hformat
  · cases List.mem_singleton.mp h
    exact .flush

theorem emits_recordLine (hformat : r.format = .json) {record : Json.Record}
    (h : e ∈ recordLine record ++ [.flush]) : r.Emits e := by
  simp only [recordLine, List.cons_append, List.nil_append, List.mem_cons, List.not_mem_nil,
    or_false] at h
  rcases h with rfl | rfl | rfl
  · exact .record record hformat
  · exact .newline hformat
  · exact .flush

theorem emits_started {c : TestCase} (h : e ∈ r.started c) : r.Emits e := by
  unfold started at h
  split at h
  · next hformat =>
    have hlines : ∀ e ∈ [Reporter.line (r.startedLine c)], ∃ text, e = Reporter.line text := by
      intro e he
      exact ⟨_, List.mem_singleton.mp he⟩
    exact emits_lines hformat hlines h
  · cases h

theorem emits_finished {c : TestCase} {v : Verdict} (h : e ∈ r.finished c v) : r.Emits e := by
  unfold finished at h
  split at h
  · next hformat => exact emits_lines hformat (fun _ => exists_line_of_mem_verdictLines) h
  · next hformat => exact emits_recordLine hformat h

theorem emits_summary {t : Totals} {emissions : List Emission}
    (hsummary : r.summary t = .ok emissions) (h : e ∈ emissions) : r.Emits e := by
  unfold summary at hsummary
  split at hsummary
  · next hformat =>
    cases hsummary
    exact emits_lines hformat (fun _ => exists_line_of_mem_summaryLines) h
  · next hformat =>
    cases hfailed : t.failed with
    | error o =>
        rw [hfailed] at hsummary
        cases hsummary
    | ok failed =>
        rw [hfailed] at hsummary
        cases hsummary
        exact emits_recordLine hformat h

end

end Reporter

end Conformance
