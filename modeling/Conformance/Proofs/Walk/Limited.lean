import Conformance.Proofs.Report.Emissions
import Conformance.Proofs.Report.JsonLines

set_option autoImplicit false

/-! # Runs on a sink that fills up

A sink that takes a given number of bytes holds the first of the bytes that an unlimited one would
hold, and the run ends with the first write that goes past its limit (`View.runSuites_limited`).
Which cases have been run by then depends on what stands before them in the report: in text format
their own `[Test]` lines too, in JSON format only the lines of the cases before them. Which error
the refusal becomes can be seen from the first byte that is missing.
-/

namespace Conformance

/-- A write that goes past the limit is refused, and as much is taken as there is room for. -/
theorem Sink.perform_of_full {sink : Sink} {part : Part} {text : String}
    (h : (sink.fitting (Utf8.encode text)).length ≠ (Utf8.encode text).length) :
    sink.perform (.write part text) = (.error (part.refusal full),
      { sink with held := sink.held ++ sink.fitting (Utf8.encode text) }) := by
  have hpush : sink.push (Utf8.encode text) = (.error full,
      { sink with held := sink.held ++ sink.fitting (Utf8.encode text) }) := if_neg h
  rw [perform, hpush]
  rfl

/-! ## Transcripts that are cut -/

namespace Act

/-- **The write that goes past a limit.** -/
theorem exists_cut {acts : List Act} {n : Nat} (h : n < (written acts).length) :
    ∃ before part text after, acts = before ++ .emit (.write part text) :: after ∧
      (written before).length ≤ n ∧ n < (written before).length + (Utf8.encode text).length := by
  induction acts generalizing n with
  | nil => cases h
  | cons a acts ih =>
      by_cases hn : n < a.bytes.length
      · cases a with
        | run c => cases hn
        | emit e =>
            cases e with
            | flush => cases hn
            | write part text =>
                refine ⟨[], part, text, acts, rfl, Nat.zero_le n, ?_⟩
                rw [written_nil, List.length_nil, Nat.zero_add]
                exact hn
      · have hsplit : (written (a :: acts)).length = a.bytes.length + (written acts).length := by
          simp [written]
        obtain ⟨before, part, text, after, rfl, hle, hlt⟩ := ih (n := n - a.bytes.length) (by omega)
        have hbefore : (written (a :: before)).length =
            a.bytes.length + (written before).length := by
          simp [written]
        exact ⟨a :: before, part, text, after, rfl, by omega, by omega⟩

end Act

namespace Walk

variable {before after : List Act} {part : Part} {text : String} {n : Nat}

/-- **A transcript is carried out up to the write that goes past the limit**, and of that write as
much is taken as there is room for. -/
theorem perform_cut (hle : (Act.written before).length ≤ n)
    (hlt : n < (Act.written before).length + (Utf8.encode text).length) :
    perform (before ++ .emit (.write part text) :: after) ⟨[], .empty (some n) false⟩ =
      (.error (part.refusal Sink.full), ⟨Act.cases before, some n, false,
        (Act.written (before ++ .emit (.write part text) :: after)).take n⟩) := by
  have htake : (Act.written (before ++ .emit (.write part text) :: after)).take n =
      Act.written before ++ (Utf8.encode text).take (n - (Act.written before).length) := by
    have hrest : n - (Act.written before).length ≤ (Utf8.encode text).length := by omega
    calc (Act.written (before ++ .emit (.write part text) :: after)).take n
        = (Act.written before ++ (Utf8.encode text ++ Act.written after)).take n := by
          rw [Act.written_append, Act.written_emit]
          rfl
      _ = Act.written before ++
            (Utf8.encode text ++ Act.written after).take (n - (Act.written before).length) := by
          rw [List.take_append, List.take_of_length_le hle]
      _ = Act.written before ++ (Utf8.encode text).take (n - (Act.written before).length) := by
          rw [List.take_append_of_le_length hrest]
  have hperform : Sink.perform ⟨some n, false, Act.written before⟩ (.write part text) =
      (.error (part.refusal Sink.full), ⟨some n, false,
        Act.written before ++ (Utf8.encode text).take (n - (Act.written before).length)⟩) := by
    refine Sink.perform_of_full ?_
    have hmin : ((Utf8.encode text).take (n - (Act.written before).length)).length =
        min (n - (Act.written before).length) (Utf8.encode text).length := List.length_take
    exact fun heq => absurd (hmin.symm.trans heq) (by omega)
  rw [perform_append, Sink.empty, perform_of_room before (some n) [] []]
  · simp only [List.nil_append, perform, hperform, htake]
  · rintro m hm
    cases hm
    simpa using hle

/-- A case has been run before the cut if and only if everything up to it has been taken. -/
theorem lt_length_cases_iff {announced rest : List Act} {c : TestCase}
    (hacts : before ++ .emit (.write part text) :: after = announced ++ .run c :: rest)
    (hle : (Act.written before).length ≤ n)
    (hlt : n < (Act.written before).length + (Utf8.encode text).length) :
    (Act.cases announced).length < (Act.cases before).length ↔
      (Act.written announced).length ≤ n := by
  rcases List.append_eq_append_iff.mp hacts with ⟨as, rfl, hrest⟩ | ⟨bs, rfl, hrest⟩
  · cases as with
    | nil => cases hrest
    | cons a as =>
        -- The cut comes before the case is run.
        obtain ⟨rfl, -⟩ := List.cons.inj hrest
        have hmany : (Act.cases before).length ≤
            (Act.cases (before ++ .emit (.write part text) :: as)).length := by simp
        have hlong : n < (Act.written (before ++ .emit (.write part text) :: as)).length := by
          simp only [Act.written_append, Act.written_emit, List.length_append, Emission.bytes]
          omega
        omega
  · cases bs with
    | nil => cases hrest
    | cons b bs =>
        -- The case is run before the cut.
        obtain ⟨rfl, -⟩ := List.cons.inj hrest
        simp only [Act.written_append, Act.written_run, List.length_append] at hle
        simp only [Act.cases_append, Act.cases_run, List.length_append, List.length_cons]
        omega

end Walk

/-! ## What a refused write becomes -/

namespace Settings

variable {s : Settings} {outcome : TestCase → Outcome}

/-- The error that a full sink becomes, by the first byte for which there is no room. In JSON format
only the newline that ends a record is written by itself. -/
def refusal (s : Settings) (b : UInt8) : Error :=
  match s.format with
  | .text => .io Sink.full
  | .json => if b = newline then .io Sink.full else .json Sink.full

/-- Whatever byte of an emission is refused, the error is the one for that byte. -/
def Refuses (s : Settings) (e : Emission) : Prop :=
  ∀ part text, e = .write part text → ∀ b ∈ Utf8.encode text, part.refusal Sink.full = s.refusal b

/-- **An emission is refused with the error for its byte**: the newline that ends a record is
written by itself, and a record has none. -/
theorem refuses_of_emits {e : Emission} (h : (Reporter.ofSettings s).Emits e) : s.Refuses e := by
  intro part text heq b hb
  cases h with
  | flush => cases heq
  | line text hformat =>
      rw [Reporter.format_ofSettings] at hformat
      cases heq
      simp [refusal, hformat, Part.refusal]
  | record record hformat =>
      rw [Reporter.format_ofSettings] at hformat
      cases heq
      have hne : b ≠ newline := fun h => record.newline_not_mem_bytes (h ▸ hb)
      simp [refusal, hformat, hne, Part.refusal]
  | newline hformat =>
      rw [Reporter.format_ofSettings] at hformat
      cases heq
      have hnewline : Utf8.encode ("" ++ "\n") = [newline] := by decide
      rw [hnewline] at hb
      simp [refusal, hformat, List.mem_singleton.mp hb, Part.refusal]

theorem emits_ending {r : Except Stop Totals} {e : Emission} (h : e ∈ s.ending r) :
    (Reporter.ofSettings s).Emits e := by
  cases r with
  | error reason => cases h
  | ok t =>
      rw [ending, summary] at h
      cases hsummary : (Reporter.ofSettings s).summary t with
      | error o =>
          rw [hsummary] at h
          cases h
      | ok emissions =>
          rw [hsummary] at h
          exact Reporter.emits_summary hsummary h

/-- **Whatever byte of a run is refused, the error is the one for that byte.** -/
theorem refuses_of_mem (outcome : TestCase → Outcome) (cs : List TestCase)
    (r : Except Stop Totals) {e : Emission}
    (h : .emit e ∈ s.casesActs outcome cs ++ (s.ending r).map .emit) : s.Refuses e := by
  have hmap : ∀ {emissions : List Emission}, Act.emit e ∈ emissions.map .emit → e ∈ emissions := by
    intro emissions hmem
    obtain ⟨e', he, heq⟩ := List.mem_map.mp hmem
    cases heq
    exact he
  apply refuses_of_emits
  rcases List.mem_append.mp h with h | h
  · obtain ⟨c, -, h⟩ := List.mem_flatMap.mp h
    rcases List.mem_append.mp h with h | h
    · exact Reporter.emits_started (hmap h)
    · rcases List.mem_cons.mp h with heq | h
      · cases heq
      · exact Reporter.emits_finished (hmap h)
  · exact emits_ending (hmap h)

/-! ## What is written before a case is run -/

/-- The bytes that announce a case: its `[Test]` line, or nothing in JSON format. -/
def announcement (s : Settings) (c : TestCase) : Bytes :=
  match s.format with
  | .text => Utf8.encode ((Reporter.ofSettings s).startedLine c ++ "\n")
  | .json => []

theorem written_started (c : TestCase) :
    Emission.written ((Reporter.ofSettings s).started c) = s.announcement c := by
  cases hformat : s.format with
  | text =>
      simp [Reporter.started, announcement, hformat, Emission.written, Emission.bytes,
        Reporter.line]
  | json => simp [Reporter.started, announcement, hformat, Emission.written]

end Settings

namespace View

variable {s : Settings} {outcome : TestCase → Outcome}

/-- A run on a sink that is too small. -/
theorem runSuites_cut {v : View} {depth n : Nat} {cs : List TestCase} {r : Except Stop Totals}
    (hplays : Walk.Plays (Walk.runSuites (v.machineOf outcome) s depth)
      (s.casesActs outcome cs ++ (s.ending r).map .emit) r) {b : UInt8}
    (hb : (s.report outcome cs ++ Emission.written (s.ending r))[n]? = some b) :
    ∃ executed, v.runSuites outcome s depth (.empty (some n) false) =
        (.error (.failed (s.refusal b)), ⟨executed, some n, false,
          (s.report outcome cs ++ Emission.written (s.ending r)).take n⟩) ∧
      executed <+: cs ∧
      ∀ before c after, cs = before ++ c :: after →
        (before.length < executed.length ↔
          (s.report outcome before ++ s.announcement c).length ≤ n) := by
  have hwritten : Act.written (s.casesActs outcome cs ++ (s.ending r).map .emit) =
      s.report outcome cs ++ Emission.written (s.ending r) := by simp
  have hcases : Act.cases (s.casesActs outcome cs ++ (s.ending r).map .emit) = cs := by simp
  have hrefuses := fun e => s.refuses_of_mem outcome cs r (e := e)
  have hsplit : ∀ before c after, cs = before ++ c :: after → ∃ rest,
      s.casesActs outcome cs ++ (s.ending r).map .emit = (s.casesActs outcome before ++
        ((Reporter.ofSettings s).started c).map .emit) ++ .run c :: rest := by
    rintro before c after rfl
    rw [Settings.casesActs_append, Settings.casesActs_cons, Settings.caseActs]
    simp only [List.append_assoc, List.cons_append]
    exact ⟨_, rfl⟩
  rw [← hwritten] at hb ⊢
  rw [runSuites, hplays ⟨[], .empty (some n) false⟩]
  generalize s.casesActs outcome cs ++ (s.ending r).map .emit = acts at hb hcases hrefuses hsplit ⊢
  -- The missing byte is one of a text that is written by a single act; the acts before it are
  -- performed, and with them the cases among them.
  obtain ⟨before, part, text, after, rfl, hle, hlt⟩ :=
    Act.exists_cut (List.getElem?_eq_some_iff.mp hb).1
  have hmem : b ∈ Utf8.encode text := by
    rw [Act.written_append, List.getElem?_append_right hle, Act.written_emit, Emission.bytes,
      List.getElem?_append_left (by omega)] at hb
    exact List.mem_of_getElem? hb
  rw [Walk.perform_cut hle hlt, Walk.conclude, hrefuses _ (by simp) part text rfl b hmem]
  refine ⟨_, rfl, ?_, fun front c rest hcs => ?_⟩
  · rw [← hcases, Act.cases_append]
    exact List.prefix_append _ _
  · obtain ⟨others, hothers⟩ := hsplit front c rest hcs
    have h := Walk.lt_length_cases_iff hothers hle hlt
    simpa [Settings.written_started] using h

/-- **A sink that takes `n` bytes ends up with the first `n` bytes of the report.** If these are all
of them the run is the same; otherwise it is aborted with the error for the first byte that is
missing. The cases that were run are then the first ones: those whose announcement was taken, with
everything before it. -/
theorem runSuites_limited (v : View) (s : Settings) (outcome : TestCase → Outcome) (depth : Nat) :
    ∃ r cs bytes, v.runSuites outcome s depth .unlimited = (r, ⟨cs, .holding bytes⟩) ∧
      bytes = s.report outcome cs ++ Emission.written (s.ending r) ∧
      (s.format = .json → ∃ lines : List Bytes, bytes = lines.flatMap (· ++ [newline]) ∧
        ∀ line ∈ lines, newline ∉ line) ∧
      (∀ before c after, cs = before ++ c :: after →
        s.report outcome before ++ s.announcement c <+: bytes) ∧
      ∀ n, ∃ r' executed, v.runSuites outcome s depth (.empty (some n) false) =
          (r', ⟨executed, some n, false, bytes.take n⟩) ∧
        executed <+: cs ∧
        (bytes.length ≤ n → r' = r ∧ executed = cs) ∧
        ∀ b, bytes[n]? = some b → r' = .error (.failed (s.refusal b)) ∧
          ∀ before c after, cs = before ++ c :: after →
            (before.length < executed.length ↔
              (s.report outcome before ++ s.announcement c).length ≤ n) := by
  obtain ⟨sights, last, r, htrail, hfate, hplays⟩ := exists_plays_runSuites v s outcome depth
  have hcounts : ∀ t, r = .ok t → ∃ n k, t.Counts n k := by
    rintro t rfl
    cases hfate with
    | done ht => exact ⟨_, _, ht⟩
  generalize s.scripts sights = cs at hplays
  refine ⟨r, cs, _, runSuites_unlimited hplays, rfl, fun hformat => ?_, ?_, fun n => ?_⟩
  · refine ⟨_, Settings.report_json hformat cs hcounts, fun line hline => ?_⟩
    obtain ⟨record, -, rfl⟩ := List.mem_map.mp hline
    exact record.newline_not_mem_bytes
  · rintro before c after rfl
    rw [Settings.report_append, Settings.report_cons, Settings.caseReport,
      Settings.written_started]
    simp only [List.append_assoc]
    exact (List.prefix_append_right_inj _).mpr (List.prefix_append _ _)
  · cases hb : (s.report outcome cs ++ Emission.written (s.ending r))[n]? with
    | none =>
        have hroom := List.getElem?_eq_none_iff.mp hb
        refine ⟨r, cs, ?_, List.prefix_refl cs, fun _ => ⟨rfl, rfl⟩, ?_⟩
        · rw [runSuites, hplays ⟨[], .empty (some n) false⟩, Sink.empty,
            Walk.perform_of_room _ (some n) [] []]
          · simp [Walk.conclude, List.take_of_length_le hroom]
          · rintro m hm
            cases hm
            simpa using hroom
        · intro b hb
          cases hb
    | some b =>
        obtain ⟨executed, hrun, hprefix, hiff⟩ := runSuites_cut hplays hb
        refine ⟨_, executed, hrun, hprefix, fun hroom => ?_, fun b' hb' => ?_⟩
        · have := (List.getElem?_eq_some_iff.mp hb).1
          omega
        · cases hb'
          exact ⟨rfl, hiff⟩

end View

end Conformance
