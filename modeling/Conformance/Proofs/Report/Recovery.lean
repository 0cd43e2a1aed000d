import Conformance.Proofs.Report.JsonLines
import Conformance.Proofs.Time.Shown

set_option autoImplicit false

/-! # A case is recovered from its line

The line that is written for a case in JSON format says all there is to say of it: two cases have one
line only if they are shown under the same names and have the same verdict
(`Reporter.finished_json_eq_iff`). Records are read back, so lines that agree have the same fields. Of
a failure these are its kind, its message and the streams that are not empty; the kind says what the
message is made of and whether there are streams at all, so that nothing that was left out is lost
(`Failure.eq_of_fields_eq`).
-/

namespace Conformance

/-! ## Records -/

namespace Json

theorem Value.datum_injective : Function.Injective Value.datum := by
  intro v v' h
  cases v <;> cases v' <;> simp_all [Value.datum]

theorem datumOfField_injective : Function.Injective datumOfField :=
  Function.injective_id.prodMap Value.datum_injective

/-- **Records that are written alike are equal.** -/
theorem Record.render_injective : Function.Injective Record.render := by
  intro record record' h
  have hread := read_render record
  rw [h, read_render record', Option.some.injEq, Record.datum, Record.datum,
    Datum.object.injEq] at hread
  exact (List.map_injective_iff.mpr datumOfField_injective hread).symm

theorem Record.bytes_injective : Function.Injective Record.bytes := by
  intro record record' h
  have htext := congrArg Utf8.decode h
  rw [Record.bytes, Record.bytes, Utf8.decode_encode, Utf8.decode_encode] at htext
  exact Record.render_injective htext

end Json

/-! ## Failures -/

/-- **A failure is what its kind, its message and its output say.** Within a kind the message gives the
time, the code, the signal or the text, and the output gives the streams. -/
theorem Failure.eq_of_fields_eq {f f' : Failure} (hkind : f.kind = f'.kind)
    (hmessage : f.message = f'.message) (houtput : f.output = f'.output) : f = f' := by
  -- The kind tells the constructor, the message the number and the output the texts.
  cases f with
  | timedOut after =>
      cases f' with
      | timedOut after' =>
          rw [Duration.text_injective ((String.append_right_inj _).mp hmessage)]
      | _ => simp [kind] at hkind
  | nonZeroExit code stdout stderr =>
      cases f' with
      | nonZeroExit code' stdout' stderr' =>
          have hcode : code = code' := Int.repr_inj.mp ((String.append_right_inj _).mp hmessage)
          obtain ⟨rfl, rfl⟩ : stdout = stdout' ∧ stderr = stderr' := by
            simpa [output] using houtput
          rw [hcode]
      | _ => simp [kind] at hkind
  | signaled signal stdout stderr =>
      cases f' with
      | signaled signal' stdout' stderr' =>
          have hsignal : signal = signal' :=
            Int.repr_inj.mp ((String.append_right_inj _).mp hmessage)
          obtain ⟨rfl, rfl⟩ : stdout = stdout' ∧ stderr = stderr' := by
            simpa [output] using houtput
          rw [hsignal]
      | _ => simp [kind] at hkind
  | spawnFailed text =>
      cases f' with
      | spawnFailed text' => exact congrArg _ hmessage
      | _ => simp [kind] at hkind
  | unreadable text =>
      cases f' with
      | unreadable text' => exact congrArg _ hmessage
      | _ => simp [kind] at hkind
  | interrupted text =>
      cases f' with
      | interrupted text' => exact congrArg _ hmessage
      | _ => simp [kind] at hkind

theorem Failure.isSome_output_eq {f f' : Failure} (hkind : f.kind = f'.kind) :
    f.output.isSome = f'.output.isSome := by
  cases f <;> cases f' <;> simp_all [kind, output]

namespace Reporter

open Json

/-- **The fields of the streams give both of them back**: a stream without a field is empty. -/
theorem streams_eq_of_fields_eq {stdout stderr stdout' stderr' : String}
    (h : streamField "stdout" stdout ++ streamField "stderr" stderr =
      streamField "stdout" stdout' ++ streamField "stderr" stderr') :
    stdout = stdout' ∧ stderr = stderr' := by
  have hfield : ∀ {s s' : String}, (if s ≠ "" then some (Value.text s) else none) =
      (if s' ≠ "" then some (Value.text s') else none) → s = s' := by
    intro s s'
    by_cases hs : s = "" <;> by_cases hs' : s' = "" <;> simp_all [eq_comm]
  have hstdout := congrArg (List.lookup "stdout") h
  have hstderr := congrArg (List.lookup "stderr") h
  simp only [List.lookup_append, lookup_streamField] at hstdout hstderr
  constructor
  · exact hfield (by simpa using hstdout)
  · exact hfield (by simpa using hstderr)

/-- **The fields of a failure give the failure back.** -/
theorem failureFields_injective : Function.Injective failureFields := by
  intro f f' h
  simp only [failureFields, List.cons_append, List.nil_append, List.cons.injEq, Prod.mk.injEq,
    Value.text.injEq, true_and] at h
  obtain ⟨hkind, hmessage, hstreams⟩ := h
  refine Failure.eq_of_fields_eq hkind hmessage ?_
  have hsome := Failure.isSome_output_eq hkind
  cases hf : f.output with
  | none =>
      have hnone : f'.output = none := by simpa [hf] using hsome.symm
      rw [hnone]
  | some streams =>
      rw [hf] at hsome
      obtain ⟨streams', hf'⟩ := Option.isSome_iff_exists.mp hsome.symm
      rw [hf, hf'] at hstreams
      obtain ⟨hstdout, hstderr⟩ := streams_eq_of_fields_eq hstreams
      rw [hf', Prod.ext hstdout hstderr]

/-- **The record of a case gives back its names and its verdict.** The status tells a case that passed
from one that failed. -/
theorem caseRecord_eq_iff {c c' : TestCase} {v v' : Verdict} :
    caseRecord c v = caseRecord c' v' ↔ c.suite = c'.suite ∧ c.displayName = c'.displayName ∧
      c.path.text = c'.path.text ∧ v = v' := by
  constructor
  · intro h
    simp only [caseRecord, List.cons_append, List.nil_append, List.cons.injEq, Prod.mk.injEq,
      Value.text.injEq, true_and] at h
    obtain ⟨hsuite, hname, hpath, hstatus, hfailure⟩ := h
    refine ⟨hsuite, hname, hpath, ?_⟩
    cases v with
    | passed =>
        cases v' with
        | passed => rfl
        | failed failure' => simp [Verdict.isPass] at hstatus
    | failed failure =>
        cases v' with
        | passed => simp [Verdict.isPass] at hstatus
        | failed failure' => exact congrArg _ (failureFields_injective hfailure)
  · rintro ⟨hsuite, hname, hpath, rfl⟩
    simp only [caseRecord, hsuite, hname, hpath]

/-- **Two cases have one line if and only if they are shown alike and have the same verdict.** Kind,
code, signal, deadline, message and both streams of a failure are all in the line. -/
theorem finished_json_eq_iff (color color' : Bool) (c c' : TestCase) (v v' : Verdict) :
    Emission.written ((make color .json).finished c v) =
        Emission.written ((make color' .json).finished c' v') ↔
      c.suite = c'.suite ∧ c.displayName = c'.displayName ∧ c.path.text = c'.path.text ∧
        v = v' := by
  have hline : ∀ color c v, Emission.written ((make color .json).finished c v) =
      (caseRecord c v).bytes ++ [newline] := fun _ _ _ => rfl
  rw [hline, hline, List.append_left_inj, Record.bytes_injective.eq_iff, caseRecord_eq_iff]

end Reporter

end Conformance
