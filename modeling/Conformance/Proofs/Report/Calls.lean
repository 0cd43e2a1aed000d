import Conformance.Proofs.Regrouping
import Conformance.Proofs.Report.Summary
import Conformance.Proofs.Walk.Limited

set_option autoImplicit false

/-! # Reporting that goes on after a refusal

A run ends with the first thing that its sink refuses. A reporter by itself does not: it can be
called again, and then writes what it is called for although something before is missing
(`Reporter.callAll`). A full sink takes nothing any more, so that it still ends up with the first
of all the bytes, without a gap; and every call that has something to write is refused from then on
(`Reporter.callAll_first_bytes`).

The one thing that decides about a call is which of its bytes are missing, `Reporter.refusal`: the
newline that ends a record is written by itself, and counts as text.
-/

namespace Conformance

/-- One thing that a reporter is called for. -/
inductive Call where
  | started (c : TestCase)
  | finished (c : TestCase) (v : Verdict)
  | summary (t : Totals)

/-- No summary has more passes than cases. -/
def Call.Sound : Call → Prop
  | .summary t => t.Sound
  | _ => True

namespace Reporter

def emissions (r : Reporter) : Call → Except Overflow (List Emission)
  | .started c => .ok (r.started c)
  | .finished c v => .ok (r.finished c v)
  | .summary t => r.summary t

def call (r : Reporter) (sink : Sink) (c : Call) : Except Stop Unit × Sink :=
  match r.emissions c with
  | .error o => (.error (.overflow o), sink)
  | .ok emissions =>
    let (result, sink') := sink.performAll emissions
    (result.mapError .failed, sink')

/-- Calls a reporter again and again, whether or not the calls before have failed. -/
def callAll (r : Reporter) : Sink → List Call → List (Except Stop Unit) × Sink
  | sink, [] => ([], sink)
  | sink, c :: rest =>
    let (result, sink') := r.call sink c
    let (results, last) := r.callAll sink' rest
    (result :: results, last)

def output (r : Reporter) (calls : List Call) : Bytes := (r.callAll .unlimited calls).2.held

def silent (r : Reporter) : Call → Bool
  | .started _ => r.format = .json
  | _ => false

/-- The error of a call whose last bytes, `missing`, were not taken. -/
def refusal (r : Reporter) (missing : Bytes) : Error :=
  match r.format with
  | .text => .io Sink.full
  | .json => if missing = [newline] then .io Sink.full else .json Sink.full

end Reporter

/-! ## Emissions on a sink that is full or cannot flush -/

namespace Sink

/-- **A flush that fails comes after everything has been written.** -/
theorem performAll_flush_refused {writes : List Emission} (hwrites : ∀ e ∈ writes, e ≠ .flush)
    (bytes : Bytes) :
    (⟨none, true, bytes⟩ : Sink).performAll (writes ++ [.flush]) =
      (.error (.io flushFailed), ⟨none, true, bytes ++ Emission.written writes⟩) := by
  induction writes generalizing bytes with
  | nil => simp [performAll, perform, Emission.written]
  | cons e writes ih =>
      obtain ⟨hne, hrest⟩ := List.forall_mem_cons.mp hwrites
      cases e with
      | flush => exact absurd rfl hne
      | write part text =>
          have hwrite : (⟨none, true, bytes⟩ : Sink).perform (.write part text) =
              (.ok (), ⟨none, true, bytes ++ Utf8.encode text⟩) := by
            simp [perform, push, fitting, Except.mapError]
          have hwritten : Emission.written (.write part text :: writes) =
              Utf8.encode text ++ Emission.written writes := rfl
          rw [List.cons_append, performAll, hwrite, hwritten, ← List.append_assoc]
          exact ih hrest _

/-- The room that is left by the first `n` bytes. -/
theorem fitting_take (bytes more : Bytes) (n : ℕ) :
    (⟨some n, false, bytes.take n⟩ : Sink).fitting more = more.take (n - bytes.length) := by
  have hlength : n - (bytes.take n).length = n - bytes.length := by
    rw [List.length_take]
    omega
  exact congrArg more.take hlength

/-- **Emissions on a sink that takes `n` bytes**, when it has taken what there is room for of the
bytes before. They are carried out up to the first byte that is missing, which decides about the
error. -/
theorem performAll_take {refusal : UInt8 → Error} {emissions : List Emission}
    (hrefusal : ∀ part text, .write part text ∈ emissions →
      ∀ b ∈ Utf8.encode text, part.refusal full = refusal b) (bytes : Bytes) (n : ℕ) :
    (⟨some n, false, bytes.take n⟩ : Sink).performAll emissions =
      (match (Emission.written emissions)[n - bytes.length]? with
        | none => .ok ()
        | some b => .error (refusal b),
        ⟨some n, false, (bytes ++ Emission.written emissions).take n⟩) := by
  induction emissions generalizing bytes with
  | nil => simp [performAll, Emission.written]
  | cons e rest ih =>
      have hrest := ih fun part text hmem => hrefusal part text (List.mem_cons_of_mem _ hmem)
      cases e with
      | flush => exact hrest bytes
      | write part text =>
          have hwritten : Emission.written (.write part text :: rest) =
              Utf8.encode text ++ Emission.written rest := rfl
          have hheld : bytes.take n ++ (Utf8.encode text).take (n - bytes.length) =
              (bytes ++ Utf8.encode text).take n := List.take_append.symm
          rw [hwritten, performAll]
          by_cases hroom : (Utf8.encode text).length ≤ n - bytes.length
          · -- All of the text is taken, and the first missing byte is one of the rest.
            have hfits : (⟨some n, false, bytes.take n⟩ : Sink).perform (.write part text) =
                (.ok (), ⟨some n, false, (bytes ++ Utf8.encode text).take n⟩) := by
              rw [perform, push, fitting_take, hheld, List.take_of_length_le hroom, if_pos rfl]
              rfl
            rw [hfits, List.getElem?_append_right hroom, ← List.append_assoc]
            have hnext := hrest (bytes ++ Utf8.encode text)
            rwa [List.length_append, ← Nat.sub_sub] at hnext
          · -- The text is cut, and nothing after it is tried.
            have hlt : n - bytes.length < (Utf8.encode text).length := by omega
            have hfull : (⟨some n, false, bytes.take n⟩ : Sink).perform (.write part text) =
                (.error (part.refusal full),
                  ⟨some n, false, (bytes ++ Utf8.encode text).take n⟩) := by
              rw [perform_of_full, fitting_take, hheld]
              rw [fitting_take, List.length_take]
              omega
            have htake : (bytes ++ (Utf8.encode text ++ Emission.written rest)).take n =
                (bytes ++ Utf8.encode text).take n := by
              rw [← List.append_assoc]
              refine List.take_append_of_le_length ?_
              rw [List.length_append]
              omega
            rw [hfull, htake, List.getElem?_append_left hlt, List.getElem?_eq_getElem hlt,
              hrefusal part text List.mem_cons_self _ (List.getElem_mem hlt)]

end Sink

/-! ## One call -/

namespace Reporter

variable {r : Reporter} {c : Call} {emissions : List Emission}

/-- **What a call comes to**: nothing at all, or lines of text, or one record. Lines and records are
followed by a flush. -/
inductive Speaks (r : Reporter) : Call → List Emission → Prop
  | nothing {c : Call} : r.silent c → Speaks r c []
  | lines {c : Call} {lines : List Emission} : r.format = .text →
      (∀ e ∈ lines, ∃ text, e = line text) → Speaks r c (lines ++ [.flush])
  | record {c : Call} (record : Json.Record) : r.format = .json → r.silent c = false →
      Speaks r c (recordLine record ++ [.flush])

/-- **Every call comes to something**, if no summary has more passes than cases. -/
theorem exists_speaks (r : Reporter) (hsound : c.Sound) :
    ∃ emissions, r.emissions c = .ok emissions ∧ r.Speaks c emissions := by
  cases hformat : r.format with
  | text =>
      have hlines : ∀ lines, (∀ e ∈ lines, ∃ text, e = line text) →
          r.Speaks c (lines ++ [.flush]) := fun lines => .lines hformat
      cases c with
      | started c =>
          refine ⟨_, rfl, ?_⟩
          rw [started, hformat]
          exact hlines [line (r.startedLine c)] fun e he => ⟨_, List.mem_singleton.mp he⟩
      | finished c v =>
          refine ⟨_, rfl, ?_⟩
          rw [finished, hformat]
          exact hlines _ fun e => exists_line_of_mem_verdictLines
      | summary t =>
          refine ⟨r.summaryLines t ++ [.flush], ?_, ?_⟩
          · rw [Reporter.emissions, summary, hformat]
          · exact hlines _ fun e => exists_line_of_mem_summaryLines
  | json =>
      cases c with
      | started c =>
          refine ⟨_, rfl, ?_⟩
          rw [started, hformat]
          exact .nothing (by simp [silent, hformat])
      | finished c v =>
          refine ⟨_, rfl, ?_⟩
          rw [finished, hformat]
          exact .record _ hformat rfl
      | summary t =>
          have hfailed : t.failed = .ok (t.total - t.passed) := if_pos hsound
          refine ⟨recordLine (summaryRecord t (t.total - t.passed)) ++ [.flush], ?_, ?_⟩
          · rw [Reporter.emissions, summary, hformat, hfailed]
            rfl
          · exact .record _ hformat rfl

theorem emissions_of_silent (h : r.silent c) : r.emissions c = .ok [] := by
  cases c with
  | started c =>
      have hformat : r.format = .json := by simpa [silent] using h
      rw [Reporter.emissions, started, hformat]
  | finished c v => cases h
  | summary t => cases h

/-- The record of a line is written first, and then its newline by itself: nothing but the newline
is missing exactly if the first byte that is missing is a newline. -/
theorem missing_eq_newline_iff {record : Json.Record} {k : ℕ} {b : UInt8}
    (hb : (record.bytes ++ [newline])[k]? = some b) :
    (record.bytes ++ [newline]).drop k = [newline] ↔ b = newline := by
  obtain ⟨hlt, rfl⟩ := List.getElem?_eq_some_iff.mp hb
  rw [List.length_append, List.length_singleton] at hlt
  constructor
  · intro hdrop
    have hlen := congrArg List.length hdrop
    rw [List.length_drop, List.length_append, List.length_singleton] at hlen
    have hk : k = record.bytes.length := by omega
    subst hk
    simp
  · intro hnewline
    by_cases hk : k < record.bytes.length
    · rw [List.getElem_append_left hk] at hnewline
      exact absurd (hnewline ▸ List.getElem_mem hk) record.newline_not_mem_bytes
    · have hk : k = record.bytes.length := by omega
      subst hk
      simp

/-- **What is missing of a call decides about its error**, through the first byte that is. -/
theorem Speaks.exists_refusal (h : r.Speaks c emissions) : ∃ refusal : UInt8 → Error,
    (∀ part text, .write part text ∈ emissions →
      ∀ b ∈ Utf8.encode text, part.refusal Sink.full = refusal b) ∧
    ∀ k b, (Emission.written emissions)[k]? = some b →
      refusal b = r.refusal ((Emission.written emissions).drop k) := by
  cases h with
  | nothing => exact ⟨fun _ => .io Sink.full, nofun, nofun⟩
  | lines hformat hlines =>
      refine ⟨fun _ => .io Sink.full, fun part text hmem b hb => ?_, fun k b hb => ?_⟩
      · rcases List.mem_append.mp hmem with hmem | hmem
        · obtain ⟨words, heq⟩ := hlines _ hmem
          cases heq
          rfl
        · cases List.mem_singleton.mp hmem
      · rw [refusal, hformat]
  | record record hformat =>
      refine ⟨fun b => if b = newline then .io Sink.full else .json Sink.full,
        fun part text hmem b hb => ?_, fun k b hb => ?_⟩
      · simp only [recordLine, line, List.cons_append, List.nil_append, List.mem_cons,
          Emission.write.injEq, reduceCtorEq, List.not_mem_nil, or_false] at hmem
        rcases hmem with ⟨rfl, rfl⟩ | ⟨rfl, rfl⟩
        · have hne : b ≠ newline := fun heq => record.newline_not_mem_bytes (heq ▸ hb)
          exact (if_neg hne).symm
        · have hnewline : Utf8.encode ("" ++ "\n") = [newline] := by decide
          rw [hnewline, List.mem_singleton] at hb
          exact (if_pos hb).symm
      · rw [written_recordLine] at hb ⊢
        rw [refusal, hformat]
        exact if_congr (missing_eq_newline_iff hb).symm rfl rfl

/-! ## Calls in a row -/

def share (r : Reporter) (c : Call) : Bytes :=
  match r.emissions c with
  | .ok emissions => Emission.written emissions
  | .error _ => []

/-- **A call on an unlimited sink.** -/
theorem call_holding (hsound : c.Sound) (bytes : Bytes) :
    r.call (.holding bytes) c = (.ok (), .holding (bytes ++ r.share c)) := by
  obtain ⟨emissions, hemissions, -⟩ := r.exists_speaks hsound
  simp only [call, share, hemissions, Sink.performAll_holding]
  rfl

theorem call_take (hsound : c.Sound) (bytes : Bytes) (n : ℕ) :
    r.call ⟨some n, false, bytes.take n⟩ c =
      (if (r.share c).drop (n - bytes.length) = [] then .ok ()
        else .error (.failed (r.refusal ((r.share c).drop (n - bytes.length)))),
        ⟨some n, false, (bytes ++ r.share c).take n⟩) := by
  obtain ⟨emissions, hemissions, hspeaks⟩ := r.exists_speaks hsound
  obtain ⟨refusal, hrefusal, hmissing⟩ := hspeaks.exists_refusal
  simp only [call, share, hemissions, Sink.performAll_take hrefusal]
  cases hb : (Emission.written emissions)[n - bytes.length]? with
  | none =>
      have hnone : (Emission.written emissions).drop (n - bytes.length) = [] :=
        List.drop_eq_nil_of_le (List.getElem?_eq_none_iff.mp hb)
      rw [if_pos hnone]
      rfl
  | some b =>
      have hsome : (Emission.written emissions).drop (n - bytes.length) ≠ [] := by
        intro hnil
        have hle := List.drop_eq_nil_iff.mp hnil
        have hlt := (List.getElem?_eq_some_iff.mp hb).1
        omega
      rw [if_neg hsome, ← hmissing _ b hb]
      rfl

theorem call_flush_refused (hsound : c.Sound) (bytes : Bytes) :
    r.call ⟨none, true, bytes⟩ c =
      (if r.silent c then .ok () else .error (.failed (.io Sink.flushFailed)),
        ⟨none, true, bytes ++ r.share c⟩) := by
  obtain ⟨emissions, hemissions, hspeaks⟩ := r.exists_speaks hsound
  simp only [call, share, hemissions]
  cases hspeaks with
  | nothing hsilent => simp [Sink.performAll, Emission.written, hsilent, Except.mapError]
  | lines hformat hlines =>
      have hloud : r.silent c = false := by
        cases c <;> simp [silent, hformat]
      rw [Sink.performAll_flush_refused, Emission.written_append_flush, hloud]
      · rfl
      · rintro e he rfl
        obtain ⟨text, heq⟩ := hlines _ he
        cases heq
  | record record hformat hloud =>
      rw [Sink.performAll_flush_refused, Emission.written_append_flush, hloud]
      · rfl
      · rintro e he rfl
        simp [recordLine, line] at he

theorem callAll_append (sink : Sink) (before after : List Call) :
    r.callAll sink (before ++ after) =
      ((r.callAll sink before).1 ++ (r.callAll (r.callAll sink before).2 after).1,
        (r.callAll (r.callAll sink before).2 after).2) := by
  induction before generalizing sink with
  | nil => rfl
  | cons c before ih => simp only [List.cons_append, callAll, ih]

theorem length_callAll (sink : Sink) (calls : List Call) :
    (r.callAll sink calls).1.length = calls.length := by
  induction calls generalizing sink with
  | nil => rfl
  | cons c calls ih => simp only [callAll, List.length_cons, ih]

/-- **The result of a call among others** is that of calling once, with what the calls before have
left. -/
theorem getElem?_callAll (sink : Sink) (before : List Call) (c : Call) (after : List Call) :
    (r.callAll sink (before ++ c :: after)).1[before.length]? =
      some (r.call (r.callAll sink before).2 c).1 := by
  rw [callAll_append, List.getElem?_append_right (r.length_callAll sink before).le,
    length_callAll, Nat.sub_self]
  rfl

/-- A sink of which every call leaves one that has been given its bytes too, `sinkOf`, is left by
calls in a row with the bytes of all of them. -/
theorem callAll_snd (sinkOf : Bytes → Sink)
    (hcall : ∀ c : Call, c.Sound → ∀ bytes, (r.call (sinkOf bytes) c).2 = sinkOf (bytes ++ r.share c))
    {calls : List Call} (hsound : ∀ c ∈ calls, c.Sound) (bytes : Bytes) :
    (r.callAll (sinkOf bytes) calls).2 = sinkOf (bytes ++ calls.flatMap r.share) := by
  induction calls generalizing bytes with
  | nil => rw [callAll, List.flatMap_nil, List.append_nil]
  | cons c calls ih =>
      obtain ⟨hc, hcalls⟩ := List.forall_mem_cons.mp hsound
      show (r.callAll (r.call (sinkOf bytes) c).2 calls).2 = _
      rw [hcall c hc, ih hcalls, List.flatMap_cons, List.append_assoc]

theorem callAll_unlimited {calls : List Call} (hsound : ∀ c ∈ calls, c.Sound) :
    (r.callAll .unlimited calls).2 = .holding (calls.flatMap r.share) :=
  callAll_snd .holding (fun _ hc bytes => congrArg Prod.snd (call_holding hc bytes)) hsound []

theorem callAll_take {calls : List Call} (hsound : ∀ c ∈ calls, c.Sound) (n : ℕ) :
    (r.callAll (.empty (some n) false) calls).2 =
      ⟨some n, false, (calls.flatMap r.share).take n⟩ := by
  have hsnd := callAll_snd (r := r) (fun bytes => ⟨some n, false, bytes.take n⟩)
    (fun _ hc bytes => congrArg Prod.snd (call_take hc bytes n)) hsound []
  simpa [Sink.empty] using hsnd

theorem callAll_flush_refused {calls : List Call} (hsound : ∀ c ∈ calls, c.Sound) :
    (r.callAll (.empty none true) calls).2 = ⟨none, true, calls.flatMap r.share⟩ :=
  callAll_snd (fun bytes => ⟨none, true, bytes⟩)
    (fun _ hc bytes => congrArg Prod.snd (call_flush_refused hc bytes)) hsound []

theorem output_eq {calls : List Call} (hsound : ∀ c ∈ calls, c.Sound) :
    r.output calls = calls.flatMap r.share := by
  rw [output, callAll_unlimited hsound]
  rfl

/-- **A reporter that is called again and again leaves the first of all its bytes on a sink that
takes `n`**, and a call fails exactly if it has something to write and not all of the output up to
its end is taken. What is missing of its own output decides about the error. A sink that cannot
flush takes the same bytes, and refuses every call but those that are silent. -/
theorem callAll_first_bytes (r : Reporter) (calls : List Call) (hsound : ∀ c ∈ calls, c.Sound) :
    (∀ sink, (r.callAll sink calls).1.length = calls.length) ∧
    (∀ n, (r.callAll (.empty (some n) false) calls).2.held = (r.output calls).take n) ∧
    (r.callAll (.empty none true) calls).2.held = r.output calls ∧
    ∀ before c after, calls = before ++ c :: after →
      ∃ out, r.output (before ++ [c]) = r.output before ++ out ∧
        (r.callAll .unlimited calls).1[before.length]? = some (.ok ()) ∧
        (∀ n, (r.callAll (.empty (some n) false) calls).1[before.length]? = some
          (if out ≠ [] ∧ n < (r.output (before ++ [c])).length then
            .error (.failed (r.refusal (out.drop (n - (r.output before).length))))
          else .ok ())) ∧
        (r.callAll (.empty none true) calls).1[before.length]? = some
          (if r.silent c then .ok () else .error (.failed (.io Sink.flushFailed))) ∧
        (r.silent c → r.emissions c = .ok []) := by
  refine ⟨fun sink => length_callAll sink calls, fun n => ?_, ?_, ?_⟩
  · rw [callAll_take hsound, output_eq hsound]
  · rw [callAll_flush_refused hsound, output_eq hsound]
  · rintro before c after rfl
    obtain ⟨hbefore, hrest⟩ := List.forall_mem_append.mp hsound
    have hc : c.Sound := hrest c List.mem_cons_self
    have hfront : r.output before = before.flatMap r.share := output_eq hbefore
    have houtput : r.output (before ++ [c]) = r.output before ++ r.share c := by
      rw [hfront, output_eq, List.flatMap_append, List.flatMap_singleton]
      exact List.forall_mem_append.mpr ⟨hbefore, fun x hx => List.mem_singleton.mp hx ▸ hc⟩
    refine ⟨r.share c, houtput, ?_, fun n => ?_, ?_, emissions_of_silent⟩
    · rw [getElem?_callAll, callAll_unlimited hbefore, call_holding hc]
    · rw [getElem?_callAll, callAll_take hbefore, ← hfront, call_take hc, houtput,
        List.length_append]
      -- A call without a share is fine even if the sink was full before it.
      by_cases hroom : (r.share c).length ≤ n - (r.output before).length
      · have htaken : ¬(r.share c ≠ [] ∧ n < (r.output before).length + (r.share c).length) := by
          rintro ⟨hne, hlt⟩
          have hpos := List.length_pos_iff.mpr hne
          omega
        rw [if_pos (List.drop_eq_nil_of_le hroom), if_neg htaken]
      · have hcut : r.share c ≠ [] ∧ n < (r.output before).length + (r.share c).length := by
          refine ⟨fun hnil => hroom ?_, by omega⟩
          rw [hnil]
          exact Nat.zero_le _
        rw [if_neg fun hnil => hroom (List.drop_eq_nil_iff.mp hnil), if_pos hcut]
    · rw [getElem?_callAll, callAll_flush_refused hbefore, call_flush_refused hc]

/-- One case that never finishes, and the summary of a run without cases. -/
def sampleCalls : List Call := [.started ⟨.ofText "t/a.lua"⟩, .summary ⟨0, 0⟩]

/-- The summary is all of the output, and nothing but its newline is missing. -/
theorem callAll_first_bytes_sample : (∀ c ∈ sampleCalls, c.Sound) ∧
    ((⟨false, .json⟩ : Reporter).callAll (.empty (some 48) false) sampleCalls).1[1]? =
      some (.error (.failed (.io Sink.full))) := by
  have hsound : ∀ c ∈ sampleCalls, c.Sound := by
    simp only [sampleCalls, List.mem_cons, List.not_mem_nil, or_false]
    rintro c (rfl | rfl)
    · trivial
    · show (0 : UInt64) ≤ 0
      decide
  refine ⟨hsound, ?_⟩
  obtain ⟨-, -, -, hsplit⟩ := callAll_first_bytes ⟨false, .json⟩ sampleCalls hsound
  obtain ⟨out, hout, -, hresult, -⟩ := hsplit [.started ⟨.ofText "t/a.lua"⟩] (.summary ⟨0, 0⟩) [] rfl
  have hnone : (⟨false, .json⟩ : Reporter).output [.started ⟨.ofText "t/a.lua"⟩] = [] := rfl
  have hbytes : out = Utf8.encode
      "\x7b\"total\":0,\"passed\":0,\"failed\":0,\"success\":true\x7d\n" := by
    rw [hnone, List.nil_append] at hout
    rw [← hout]
    decide
  have hcut := hresult 48
  rw [hout, hnone, List.nil_append, hbytes, if_pos (by decide)] at hcut
  exact hcut

end Reporter

end Conformance
