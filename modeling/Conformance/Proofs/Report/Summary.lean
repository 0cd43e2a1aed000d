import Conformance.Proofs.Report.JsonLines
import Conformance.Proofs.Walk.Encounters

set_option autoImplicit false

/-! # The last line of a report

A report whose run has come to its end says in its last line whether all tests have passed, in words
or as the member of an object (`Settings.Says`). It never says both (`Settings.Says.unique`), and
what it says is what the totals are (`Settings.says_summary`).

Every report ends with a newline (`Ended`), so that its last line is the last that is written, and
not the rest of a longer one.
-/

namespace Conformance

/-! ## Last lines -/

/-- The bytes end with a newline, unless there are none. -/
def Ended (bytes : Bytes) : Prop := ∀ b ∈ bytes.getLast?, b = newline

def lastLine? (bytes : Bytes) : Option Bytes :=
  if bytes.getLast? = some newline then
    some (bytes.dropLast.reverse.takeWhile (· ≠ newline)).reverse
  else none

section

variable {as bs line : Bytes}

theorem Ended.append (ha : Ended as) (hb : Ended bs) : Ended (as ++ bs) := by
  intro b hmem
  rw [List.getLast?_append] at hmem
  cases hlast : bs.getLast? with
  | none =>
      rw [hlast, Option.none_or] at hmem
      exact ha b hmem
  | some c =>
      rw [hlast, Option.some_or] at hmem
      exact hb b (hlast ▸ hmem)

theorem ended_append_newline (as : Bytes) : Ended (as ++ [newline]) := by
  intro b hb
  rw [List.getLast?_concat] at hb
  exact (Option.mem_some_iff.mp hb).symm

theorem ended_flatMap {α : Type} {f : α → Bytes} {xs : List α} (h : ∀ x ∈ xs, Ended (f x)) :
    Ended (xs.flatMap f) := by
  induction xs with
  | nil => nofun
  | cons x xs ih =>
      obtain ⟨hx, hxs⟩ := List.forall_mem_cons.mp h
      rw [List.flatMap_cons]
      exact hx.append (ih hxs)

/-- **The last line is the one that is written last**, behind bytes that end with a newline. -/
theorem lastLine?_append (ha : Ended as) (hline : newline ∉ line) :
    lastLine? (as ++ (line ++ [newline])) = some line := by
  have hreverse : (as ++ (line ++ [newline])).dropLast.reverse = line.reverse ++ as.reverse := by
    rw [← List.append_assoc, List.dropLast_concat, List.reverse_append]
  have hstop : as.reverse.takeWhile (· ≠ newline) = [] := by
    cases hrest : as.reverse with
    | nil => rfl
    | cons b rest =>
        have hb : b = newline := by
          apply ha
          rw [List.getLast?_eq_head?_reverse, hrest]
          rfl
        simp [hb]
  have htake : (line.reverse ++ as.reverse).takeWhile (· ≠ newline) = line.reverse := by
    rw [List.takeWhile_append_of_pos, hstop, List.append_nil]
    intro b hb
    have : b ≠ newline := fun heq => hline (heq ▸ List.mem_reverse.mp hb)
    simpa using this
  rw [lastLine?, if_pos (by rw [← List.append_assoc, List.getLast?_concat]), hreverse, htake,
    List.reverse_reverse]

theorem newline_not_mem_encode {text : String} (h : '\n' ∉ text.toList) :
    newline ∉ Utf8.encode text := by
  intro hmem
  obtain ⟨c, hc, hcode⟩ := Utf8.mem_encode_ascii hmem (by decide)
  have hnewline : c = '\n' := Char.toNat_inj.mp hcode
  exact h (hnewline ▸ hc)

end

/-! ## Reports end with a newline -/

namespace Reporter

theorem bytes_line (text : String) : (line text).bytes = Utf8.encode text ++ [newline] := by
  rw [line, Emission.bytes, Utf8.encode_append]
  rfl

theorem ended_line (text : String) : Ended (line text).bytes :=
  bytes_line text ▸ ended_append_newline _

theorem ended_lines {lines : List Emission} (h : ∀ e ∈ lines, ∃ text, e = line text) :
    Ended (Emission.written (lines ++ [.flush])) := by
  refine ended_flatMap fun e he => ?_
  rcases List.mem_append.mp he with he | he
  · obtain ⟨text, rfl⟩ := h e he
    exact ended_line text
  · cases List.mem_singleton.mp he
    nofun

theorem ended_started (r : Reporter) (c : TestCase) : Ended (Emission.written (r.started c)) := by
  unfold started
  split
  · have hlines : ∀ e ∈ [line (r.startedLine c)], ∃ text, e = line text :=
      fun e he => ⟨_, List.mem_singleton.mp he⟩
    exact ended_lines hlines
  · nofun

theorem ended_finished (r : Reporter) (c : TestCase) (v : Verdict) :
    Ended (Emission.written (r.finished c v)) := by
  unfold finished
  split
  · exact ended_lines fun e => exists_line_of_mem_verdictLines
  · rw [written_recordLine]
    exact ended_append_newline _

end Reporter

/-- **What is written about encounters ends with a newline.** -/
theorem Encounter.ended_reports (s : Settings) (es : List Encounter) : Ended (reports s es) := by
  refine ended_flatMap fun x _ => ?_
  cases x with
  | directory dir listing => nofun
  | script c verdict =>
      refine (Reporter.ended_started _ c).append ?_
      cases verdict with
      | ok verdict => exact Reporter.ended_finished _ c verdict
      | error e => nofun

/-! ## What the last line says -/

/-- The words of a summary: whether all tests have passed, and if not, how many. -/
def Reporter.summaryText (r : Reporter) (n k : Nat) : String :=
  if k = n then r.tag "Success" .green ++ " All tests passed!"
  else r.tag "Failure" .red ++ " " ++ toString k ++ " of " ++ toString n ++ " tests passed"

/-- **A report says in its last line that all tests have passed**, or that they have not. -/
inductive Settings.Says (s : Settings) (stdout : Bytes) : Bool → Prop
  | text (n k : Nat) : s.format = .text →
      lastLine? stdout = some (Utf8.encode ((Reporter.ofSettings s).summaryText n k)) →
      Says s stdout (decide (k = n))
  | json {text : String} {d : Json.Datum} {success : Bool} : s.format = .json →
      lastLine? stdout = some (Utf8.encode text) → Json.read text = some d →
      d.member? "success" = some (.bool success) → Says s stdout success

namespace Reporter

/-- The words tell a success from a failure. -/
theorem eq_iff_of_summaryText {r : Reporter} {n k n' k' : Nat}
    (h : r.summaryText n k = r.summaryText n' k') : k = n ↔ k' = n' := by
  -- The first four characters differ: by the colour, or else by the label.
  have hdiffer : ∀ rest rest' : String, r.tag "Success" .green ++ rest ≠
      r.tag "Failure" .red ++ rest' := by
    intro rest rest' heq
    have hfour := congrArg (fun text => text.toList.take 4) heq
    cases hcolor : r.color with
    | true => simp [tag, hcolor, Color.code] at hfour
    | false => simp [tag, hcolor] at hfour
  unfold summaryText at h
  split at h <;> split at h
  · simp [*]
  · exact absurd h (by simpa only [String.append_assoc] using hdiffer _ _)
  · exact absurd h.symm (by simpa only [String.append_assoc] using hdiffer _ _)
  · simp [*]

theorem newline_not_mem_summaryText (r : Reporter) (n k : Nat) :
    '\n' ∉ (r.summaryText n k).toList := by
  have hdigits : ∀ n : Nat, '\n' ∉ Nat.toDigits 10 n := fun n hmem =>
    absurd (Json.isDigit_of_mem_toDigits hmem) (by decide)
  have hsuccess : '\n' ∉ (r.tag "Success" .green).toList := by
    unfold tag
    split <;> decide
  have hfailure : '\n' ∉ (r.tag "Failure" .red).toList := by
    unfold tag
    split <;> decide
  unfold summaryText
  split
  · simp [hsuccess]
  · simp [hfailure, hdigits]

/-- **The summary in words** is a line of the counts, behind an empty line if there are cases. -/
theorem summaryLines_eq (r : Reporter) {t : Totals} {n k : Nat} (ht : t.Counts n k) :
    r.summaryLines t = (if 0 < t.total then [line ""] else []) ++ [line (r.summaryText n k)] := by
  have htext : (if t.allPassed then r.tag "Success" .green ++ " All tests passed!"
      else r.tag "Failure" .red ++ " " ++ toString t.passed.toNat ++ " of "
        ++ toString t.total.toNat ++ " tests passed") = r.summaryText n k := by
    rw [summaryText, ht.passed, ht.total]
    exact if_congr ht.allPassed_iff rfl rfl
  rw [summaryLines, htext]

/-- The summary in words ends with a line of the counts. -/
theorem exists_written_summaryLines (r : Reporter) {t : Totals} {n k : Nat} (ht : t.Counts n k) :
    ∃ front, Ended front ∧ Emission.written (r.summaryLines t ++ [.flush]) =
      front ++ (Utf8.encode (r.summaryText n k) ++ [newline]) := by
  refine ⟨Emission.written (if 0 < t.total then [line ""] else []), ?_, ?_⟩
  · split
    · exact ended_append_newline []
    · nofun
  · rw [Emission.written_append_flush, r.summaryLines_eq ht]
    simp only [Emission.written, List.flatMap_append, List.flatMap_singleton, bytes_line]

end Reporter

namespace Settings

variable {s : Settings} {bytes : Bytes} {b b' : Bool}

theorem Says.unique (h : s.Says bytes b) (h' : s.Says bytes b') : b = b' := by
  have hencode : ∀ {text text' : String},
      some (Utf8.encode text) = some (Utf8.encode text') → text = text' := by
    intro text text' heq
    rw [← Utf8.decode_encode text, Option.some.inj heq, Utf8.decode_encode]
  cases h with
  | text n k hformat hlast =>
      cases h' with
      | text n' k' _ hlast' =>
          have htext := hencode (hlast.symm.trans hlast')
          exact decide_eq_decide.mpr (Reporter.eq_iff_of_summaryText htext)
      | json hformat' => cases hformat.symm.trans hformat'
  | json hformat hlast hread hmember =>
      cases h' with
      | text _ _ hformat' => cases hformat.symm.trans hformat'
      | json _ hlast' hread' hmember' =>
          obtain rfl := hencode (hlast.symm.trans hlast')
          cases hread.symm.trans hread'
          cases hmember.symm.trans hmember'
          rfl

/-- **The last line of a report says what its totals are.** -/
theorem says_summary (hbytes : Ended bytes) {t : Totals} {n k : Nat} (ht : t.Counts n k) :
    s.Says (bytes ++ Emission.written (s.summary t)) (decide (k = n)) := by
  cases hformat : s.format with
  | text =>
      obtain ⟨front, hfront, hwritten⟩ := (Reporter.ofSettings s).exists_written_summaryLines ht
      have hsummary : Emission.written (s.summary t) = front ++
          (Utf8.encode ((Reporter.ofSettings s).summaryText n k) ++ [newline]) := by
        rw [← hwritten, summary, Reporter.summary, Reporter.format_ofSettings, hformat]
      refine .text n k hformat ?_
      rw [hsummary, ← List.append_assoc]
      exact lastLine?_append (hbytes.append hfront)
        (newline_not_mem_encode (Reporter.newline_not_mem_summaryText _ n k))
  | json =>
      obtain ⟨success, hmember, hiff⟩ := (Reporter.reportsTotals_summaryRecord ht).success
      have hsuccess : success = decide (k = n) := Bool.eq_iff_iff.mpr (by simp [hiff])
      rw [written_summary_json hformat ht]
      refine .json hformat (lastLine?_append hbytes ?_) (Json.read_render _) (hsuccess ▸ hmember)
      exact Json.Record.newline_not_mem_bytes _

end Settings

end Conformance
