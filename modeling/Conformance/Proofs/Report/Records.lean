import Conformance.Proofs.Json.RoundTrip
import Conformance.Proofs.Totals
import Conformance.Proofs.Walk.Outcome

set_option autoImplicit false

/-! # What a JSON report says

What a reader finds in the records of a report, said without the records: `Datum.ReportsCase` for
the object of a case and `Datum.ReportsTotals` for the last one. The records of a reporter are read
back as such objects (`Reporter.reportsCase_caseRecord`, `Reporter.reportsTotals_summaryRecord`).
-/

namespace Conformance

/-! ## Members -/

namespace Json

/-- A member of what is read for a record is what is read for its field. -/
theorem Record.member?_datum (record : Record) (name : String) :
    record.datum.member? name = (record.lookup name).map Value.datum := by
  simp only [datum, Datum.member?]
  induction record with
  | nil => rfl
  | cons field others ih =>
      obtain ⟨key, v⟩ := field
      simp only [List.map_cons, datumOfField, List.lookup_cons]
      cases name == key with
      | true => rfl
      | false => exact ih

def Datum.saysPassed (d : Datum) : Bool :=
  match d.member? "status" with
  | some (.text status) => status = "passed"
  | _ => false

end Json

/-! ## The streams of a case -/

/-- The decoded output of a case, if it is shown: the case ended by itself with another code than
zero, or by a signal. -/
def Outcome.shown (o : Outcome) : Option (String × String) :=
  match o with
  | .ok ⟨.exited code, stdout, stderr⟩ =>
    if code = 0 then none else some (Utf8.decode stdout, Utf8.decode stderr)
  | .ok ⟨.signaled _, stdout, stderr⟩ => some (Utf8.decode stdout, Utf8.decode stderr)
  | .ok ⟨.timedOut, _, _⟩ => none
  | .error _ => none

/-- The output that is worth showing is the output that is shown. -/
theorem Outcome.output_verdict (o : Outcome) (deadline : Duration) :
    (o.verdict deadline).failure?.bind Failure.output = o.shown := by
  cases o with
  | error e => cases e <;> rfl
  | ok execution =>
      rcases execution with ⟨completion, stdout, stderr⟩
      cases completion with
      | exited code =>
          by_cases h : code = 0 <;>
            simp [verdict, classify, shown, h, Verdict.failure?, Failure.output]
      | signaled signal => rfl
      | timedOut => rfl

/-! ## Objects -/

namespace Json

/-- **The object of a case.** It has no two members of one name; it gives back the suite, the name
and the path of the case; it says whether the case passed, and if not, why; and it holds each stream
that is shown and not empty. -/
structure Datum.ReportsCase (d : Datum) (s : Settings) (c : TestCase) (o : Outcome) : Prop where
  object : ∃ members, d = .object members ∧ (members.map Prod.fst).Nodup
  suite : d.member? "suite" = some (.text c.suite)
  name : d.member? "name" = some (.text c.displayName)
  path : d.member? "path" = some (.text c.path.text)
  status : ∃ status, d.member? "status" = some (.text status) ∧
    (status = "passed" ↔ o.verdict s.timeout = .passed)
  failure : d.member? "failure" =
    (o.verdict s.timeout).failure?.map fun failure => .text failure.kind
  message : d.member? "message" =
    (o.verdict s.timeout).failure?.map fun failure => .text failure.message
  stdout : d.member? "stdout" = ((o.shown.map Prod.fst).filter (· ≠ "")).map .text
  stderr : d.member? "stderr" = ((o.shown.map Prod.snd).filter (· ≠ "")).map .text

/-- **The last object**: of `n` cases `k` have passed. -/
structure Datum.ReportsTotals (d : Datum) (n k : Nat) : Prop where
  object : ∃ members, d = .object members ∧ (members.map Prod.fst).Nodup
  total : d.member? "total" = some (.number n 0)
  passed : d.member? "passed" = some (.number k 0)
  failed : ∃ failures : Nat, d.member? "failed" = some (.number failures 0) ∧ n = k + failures
  success : ∃ success, d.member? "success" = some (.bool success) ∧ (success = true ↔ k = n)

theorem Record.object_datum {record : Record} (h : (record.map Prod.fst).Nodup) :
    ∃ members, record.datum = .object members ∧ (members.map Prod.fst).Nodup := by
  refine ⟨_, rfl, ?_⟩
  have hnames : (record.map datumOfField).map Prod.fst = record.map Prod.fst := by
    simp [datumOfField]
  rwa [hnames]

end Json

namespace Reporter

open Json

theorem lookup_streamField (name stream key : String) :
    (streamField name stream).lookup key =
      if key = name ∧ stream ≠ "" then some (.text stream) else none := by
  by_cases hs : stream = ""
  · simp [streamField, hs]
  · by_cases hk : key = name
    · simp [streamField, hs, hk]
    · have hkey : (key == name) = false := by simpa using hk
      simp [streamField, hs, hk, List.lookup_cons, hkey]

/-- A stream that is shown has a field with its text if it is not empty. -/
theorem lookup_caseRecord (c : TestCase) (v : Verdict) {key : String}
    (hkey : key ∉ ["suite", "name", "path", "status", "failure", "message"]) :
    (caseRecord c v).lookup key = (v.failure?.bind Failure.output).bind fun (stdout, stderr) =>
      (streamField "stdout" stdout ++ streamField "stderr" stderr).lookup key := by
  have hne : ∀ name ∈ ["suite", "name", "path", "status", "failure", "message"],
      (key == name) = false := by
    intro name hname
    refine beq_false_of_ne fun heq => hkey (heq ▸ hname)
  simp only [List.mem_cons, forall_eq_or_imp, List.not_mem_nil, false_implies, implies_true,
    and_true] at hne
  obtain ⟨hsuite, hname, hpath, hstatus, hfailure, hmessage⟩ := hne
  cases v with
  | passed => simp [caseRecord, List.lookup_cons, hsuite, hname, hpath, hstatus, Verdict.failure?]
  | failed failure =>
      simp only [caseRecord, failureFields, List.cons_append, List.nil_append, List.lookup_cons,
        hsuite, hname, hpath, hstatus, hfailure, hmessage, Verdict.failure?, Option.bind_some]
      cases failure.output with
      | none => rfl
      | some streams => rfl

/-- The names of the fields, of which a record may lack some at the end. -/
theorem names_sublist (c : TestCase) (v : Verdict) : ((caseRecord c v).map Prod.fst).Sublist
    ["suite", "name", "path", "status", "failure", "message", "stdout", "stderr"] := by
  have hstream : ∀ name stream, ((streamField name stream).map Prod.fst).Sublist [name] := by
    intro name stream
    unfold streamField
    split
    · exact List.nil_sublist _
    · exact .refl _
  cases v with
  | passed => exact List.sublist_append_left ["suite", "name", "path", "status"] _
  | failed failure =>
      have hfields : ((failureFields failure).map Prod.fst).Sublist
          (["failure", "message"] ++ ["stdout", "stderr"]) := by
        unfold failureFields
        rw [List.map_append]
        refine (List.Sublist.refl ["failure", "message"]).append ?_
        cases failure.output with
        | none => exact List.nil_sublist _
        | some streams =>
            simp only [List.map_append]
            exact (hstream "stdout" streams.1).append (hstream "stderr" streams.2)
      exact (List.Sublist.refl ["suite", "name", "path", "status"]).append hfields

/-- **The record of a case is read back as the object of the case.** -/
theorem reportsCase_caseRecord (s : Settings) (c : TestCase) (o : Outcome) :
    (caseRecord c (o.verdict s.timeout)).datum.ReportsCase s c o := by
  have hshown := o.output_verdict s.timeout
  generalize hv : o.verdict s.timeout = v at hshown ⊢
  refine ⟨Record.object_datum ((names_sublist c v).nodup (by decide)), ?_, ?_, ?_, ?_, ?_, ?_, ?_,
    ?_⟩
  all_goals rw [Record.member?_datum]
  · rfl
  · rfl
  · rfl
  · refine ⟨_, rfl, ?_⟩
    rw [hv]
    cases v with
    | passed => decide
    | failed failure => simp [Verdict.isPass]
  · rw [hv]
    cases v with
    | passed => rfl
    | failed failure => rfl
  · rw [hv]
    cases v with
    | passed => rfl
    | failed failure => rfl
  · rw [lookup_caseRecord c v (by decide), hshown]
    cases o.shown with
    | none => rfl
    | some streams =>
        by_cases h : streams.1 = "" <;>
          simp [List.lookup_append, lookup_streamField, h, Value.datum, Option.filter]
  · rw [lookup_caseRecord c v (by decide), hshown]
    cases o.shown with
    | none => rfl
    | some streams =>
        by_cases h : streams.2 = "" <;>
          simp [List.lookup_append, lookup_streamField, h, Value.datum, Option.filter]

/-- **The record of the totals is read back as the last object.** -/
theorem reportsTotals_summaryRecord {t : Totals} {n k : Nat} (h : t.Counts n k) :
    (summaryRecord t (t.total - t.passed)).datum.ReportsTotals n k := by
  have hnames : ((summaryRecord t (t.total - t.passed)).map Prod.fst) =
      ["total", "passed", "failed", "success"] := rfl
  refine ⟨Record.object_datum (hnames ▸ by decide), ?_, ?_, ⟨n - k, ?_, ?_⟩, t.allPassed, ?_, ?_⟩
  · rw [Record.member?_datum, ← h.total]
    rfl
  · rw [Record.member?_datum, ← h.passed]
    rfl
  · rw [Record.member?_datum, ← h.failed.2]
    rfl
  · have := h.passed_le_total
    omega
  · rw [Record.member?_datum]
    rfl
  · exact h.allPassed_iff

end Reporter

end Conformance
