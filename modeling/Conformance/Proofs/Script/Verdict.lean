import Mathlib
import Conformance.Proofs.Script.Steps
import Conformance.Walk

set_option autoImplicit false

/-! # The verdict on a script

A script whose lines neither sleep nor save a number is run up to the first line that stops it, whatever
the files are. The lines before that one write their arguments (`runLines_append`), the lines behind it do
nothing, and the line itself decides the verdict (`classifyRun_script`). Lines that are ignored count when
lines are numbered.
-/

namespace Conformance

/-- What a process leaves behind that runs a script and is not killed. -/
def Transcript.execution {σ : Type} (t : Transcript σ) : Execution :=
  ⟨.exited t.ending.status, Utf8.encode t.stdout, Utf8.encode (t.stderr ++ t.ending.lastWords)⟩

namespace Script

/-- **A line that neither sleeps nor saves a number.** -/
def Plain (line : List Char) : Prop := ∀ arg, ¬ Spells line "sleep" arg ∧ ¬ Spells line "pidfile" arg

section Lines

variable {σ : Type} (save : Path → σ → Except IoError σ)

theorem passes_of_plain {before : List (List Char)} (hgo : ∀ line ∈ before, ¬ Stops line)
    (hplain : ∀ line ∈ before, Plain line) (files : σ) : Passes save before files files := by
  induction before with
  | nil => exact .nil
  | cons line before ih =>
      obtain ⟨hline, hbefore⟩ := List.forall_mem_cons.mp hgo
      obtain ⟨hlinePlain, hbeforePlain⟩ := List.forall_mem_cons.mp hplain
      have hleads : Leads save line files files := by
        rcases ignored_or_spells hline (fun arg => (hlinePlain arg).1)
          (fun arg => (hlinePlain arg).2) with hignored | ⟨arg, hspells⟩
        · exact .ignored hignored
        · exact .writes hspells
      exact .cons hleads (ih hbefore hbeforePlain)

/-- **The lines that go on are run before the others**, and each of them counts. -/
theorem runLines_append {before : List (List Char)} (hgo : ∀ line ∈ before, ¬ Stops line)
    (hplain : ∀ line ∈ before, Plain line) :
    ∃ outs errs, Gathers "print" before outs ∧ Gathers "eprint" before errs ∧
      ∀ number rest files, runLines save number (before ++ rest) files =
        let later := runLines save (number + before.length) rest files
        ⟨written outs ++ later.stdout, written errs ++ later.stderr, later.files, later.ending⟩ := by
  obtain ⟨outs, houts⟩ := exists_gathers "print" before
  obtain ⟨errs, herrs⟩ := exists_gathers "eprint" before
  refine ⟨outs, errs, houts, herrs, fun number rest files => ?_⟩
  obtain ⟨outs', errs', houts', herrs', hruns⟩ :=
    runLines_passes (passes_of_plain save hgo hplain files)
  rw [hruns, houts'.unique houts, herrs'.unique herrs]
  rfl

/-- A script is stopped by no line, or there is a first one that stops it. -/
theorem exists_first_stop (lines : List (List Char)) :
    (∀ line ∈ lines, ¬ Stops line) ∨
      ∃ before stop after, lines = before ++ stop :: after ∧
        (∀ line ∈ before, ¬ Stops line) ∧ Stops stop := by
  induction lines with
  | nil => exact Or.inl fun line hline => nomatch hline
  | cons line lines ih =>
      by_cases hstop : Stops line
      · exact Or.inr ⟨[], line, lines, rfl, fun line hline => (nomatch hline), hstop⟩
      · rcases ih with hgo | ⟨before, stop, after, rfl, hgo, hstops⟩
        · exact Or.inl (List.forall_mem_cons.mpr ⟨hstop, hgo⟩)
        · exact Or.inr ⟨line :: before, stop, after, rfl,
            List.forall_mem_cons.mpr ⟨hstop, hgo⟩, hstops⟩

/-- **What a script does that an exit stops.** -/
theorem runLines_exits {before : List (List Char)} {stop : List Char} {code : ℕ}
    (hgo : ∀ line ∈ before, ¬ Stops line) (hplain : ∀ line ∈ before, Plain line)
    (hstop : Exits stop code) :
    ∃ outs errs, Gathers "print" before outs ∧ Gathers "eprint" before errs ∧
      ∀ number after files, runLines save number (before ++ stop :: after) files =
        ⟨written outs, written errs, files, .exit code⟩ := by
  obtain ⟨outs, errs, houts, herrs, hruns⟩ := runLines_append save hgo hplain
  refine ⟨outs, errs, houts, herrs, fun number after files => ?_⟩
  rw [hruns, runLines, runLine_exits hstop]
  simp

/-- **What a script does that a bad line stops.** -/
theorem runLines_bad {before : List (List Char)} {stop : List Char}
    (hgo : ∀ line ∈ before, ¬ Stops line) (hplain : ∀ line ∈ before, Plain line)
    (hstop : Bad stop) :
    ∃ outs errs, Gathers "print" before outs ∧ Gathers "eprint" before errs ∧
      ∀ number after files, runLines save number (before ++ stop :: after) files =
        ⟨written outs, written errs ++ Directive.badLine (number + before.length) stop, files,
          .exit 2⟩ := by
  obtain ⟨outs, errs, houts, herrs, hruns⟩ := runLines_append save hgo hplain
  refine ⟨outs, errs, houts, herrs, fun number after files => ?_⟩
  rw [hruns, runLines, runLine_bad hstop]
  simp

/-- **What a script does that no line stops.** -/
theorem runLines_to_end {lines : List (List Char)} (hgo : ∀ line ∈ lines, ¬ Stops line)
    (hplain : ∀ line ∈ lines, Plain line) :
    ∃ outs errs, Gathers "print" lines outs ∧ Gathers "eprint" lines errs ∧
      ∀ number files, runLines save number lines files =
        ⟨written outs, written errs, files, .exit 0⟩ := by
  obtain ⟨outs, errs, houts, herrs, hruns⟩ := runLines_append save hgo hplain
  refine ⟨outs, errs, houts, herrs, fun number files => ?_⟩
  have hwhole := hruns number [] files
  rw [List.append_nil] at hwhole
  rw [hwhole, runLines]
  simp

end Lines

/-! ## The interpreter and the verdict -/

theorem classifyRun_execution {σ : Type} (t : Transcript σ) (code : ℕ) (deadline : Duration)
    (h : t.ending = .exit code) :
    classifyRun (.ok t.execution) deadline =
      .ok (if code = 0 then .passed else .failed (.nonZeroExit code t.stdout t.stderr)) := by
  have hwords : t.stderr ++ t.ending.lastWords = t.stderr := by
    rw [h]
    exact String.append_empty
  rw [classifyRun, classify, Transcript.execution, hwords]
  simp [h, ScriptEnd.status]

/-- **The verdict on a script is decided by the first line that stops it.** It passes if there is none,
or if that line is an exit with zero. Otherwise its code is that of the exit, or two for a bad line;
what it wrote are the arguments of the lines before, and the diagnosis of a bad line with its number. -/
theorem classifyRun_script {σ : Type} (m : Machine σ) (read : Path → σ → Except IoError Bytes)
    (save : Path → σ → Except IoError σ) (script body : String) (lines : List (List Char)) (files : σ)
    (deadline : Duration)
    (hread : read ⟨Utf8.encode script⟩ files = .ok (Utf8.encode body))
    (hlines : Lines body.toList lines)
    (hplain : ∀ line ∈ lines, Plain line)
    (hrun : (m.run ⟨⟨Utf8.encode script⟩⟩ files).1 =
      .ok (invoke read save [Utf8.encode script] files).execution) :
    let verdict := classifyRun (m.run ⟨⟨Utf8.encode script⟩⟩ files).1 deadline
    (verdict = .ok .passed ↔
      (∀ line ∈ lines, ¬ Stops line) ∨
        ∃ before stop after, lines = before ++ stop :: after ∧
          (∀ line ∈ before, ¬ Stops line) ∧ Exits stop 0) ∧
    ∀ before stop after, lines = before ++ stop :: after → (∀ line ∈ before, ¬ Stops line) →
      ∃ prints eprints, Gathers "print" before prints ∧ Gathers "eprint" before eprints ∧
        (∀ code, Exits stop code → code ≠ 0 →
          verdict = .ok (.failed (.nonZeroExit code (written prints) (written eprints)))) ∧
        ∀ text, Trimmed stop text → Bad stop →
          verdict = .ok (.failed (.nonZeroExit 2 (written prints)
            (written eprints ++ ("mock_interpreter: line " ++ toString (before.length + 1)
              ++ ": bad directive '" ++ String.ofList text ++ "'\n")))) := by
  intro verdict
  have hverdict : verdict = classifyRun (.ok (runLines save 1 lines files).execution) deadline := by
    show classifyRun _ deadline = _
    rw [hrun, invoke_text save hread hlines]
  rw [hverdict]
  refine ⟨⟨fun hpassed => ?_, fun h => ?_⟩, ?_⟩
  · -- Any other first line that stops the script makes it fail.
    rcases exists_first_stop lines with hgo | ⟨before, stop, after, rfl, hgo, ⟨code, hexits⟩ | hbad⟩
    · exact Or.inl hgo
    · have hplain' := (List.forall_mem_append.mp hplain).1
      obtain ⟨outs, errs, -, -, hruns⟩ := runLines_exits save hgo hplain' hexits
      rw [hruns, classifyRun_execution _ code deadline rfl] at hpassed
      split at hpassed
      · next hzero => exact Or.inr ⟨before, stop, after, rfl, hgo, hzero ▸ hexits⟩
      · cases hpassed
    · have hplain' := (List.forall_mem_append.mp hplain).1
      obtain ⟨outs, errs, -, -, hruns⟩ := runLines_bad save hgo hplain' hbad
      rw [hruns, classifyRun_execution _ 2 deadline rfl] at hpassed
      cases hpassed
  · rcases h with hgo | ⟨before, stop, after, rfl, hgo, hexits⟩
    · obtain ⟨outs, errs, -, -, hruns⟩ := runLines_to_end save hgo hplain
      rw [hruns, classifyRun_execution _ 0 deadline rfl, if_pos rfl]
    · have hplain' := (List.forall_mem_append.mp hplain).1
      obtain ⟨outs, errs, -, -, hruns⟩ := runLines_exits save hgo hplain' hexits
      rw [hruns, classifyRun_execution _ 0 deadline rfl, if_pos rfl]
  · rintro before stop after rfl hgo
    have hplain' := (List.forall_mem_append.mp hplain).1
    -- What is printed before is the same whatever the line that stops the script is.
    obtain ⟨outs, errs, houts, herrs, hruns⟩ := runLines_append save hgo hplain'
    refine ⟨outs, errs, houts, herrs, fun code hexits hcode => ?_, fun text htext hbad => ?_⟩
    · obtain ⟨outs', errs', houts', herrs', hruns'⟩ := runLines_exits save hgo hplain' hexits
      rw [hruns', classifyRun_execution _ code deadline rfl, if_neg hcode, houts'.unique houts,
        herrs'.unique herrs]
    · obtain ⟨outs', errs', houts', herrs', hruns'⟩ := runLines_bad save hgo hplain' hbad
      rw [hruns', classifyRun_execution _ 2 deadline rfl, if_neg (by decide), houts'.unique houts,
        herrs'.unique herrs, ← htext.trimBlanks_eq, add_comm 1 before.length]
      rfl

/-- A script of four lines, of which the third one stops it. -/
theorem classifyRun_script_of_four_lines :
    let script := "print a\n\n exit +3 \neprint b"
    let read : Path → Unit → Except IoError Bytes := fun _ _ => .ok (Utf8.encode script)
    let save : Path → Unit → Except IoError Unit := fun _ _ => .ok ()
    let m : Machine Unit :=
      { list := fun _ _ => .ok []
        isDirectory := fun _ _ => false
        run := fun c _ => (.ok (invoke read save [c.path.bytes] ()).execution, ()) }
    classifyRun (m.run ⟨⟨Utf8.encode "x"⟩⟩ ()).1 .zero =
      .ok (.failed (.nonZeroExit 3 "a\n" "")) := by
  intro script read save m
  let before : List (List Char) := ["print a".toList, []]
  let stop := " exit +3 ".toList
  let after : List (List Char) := ["eprint b".toList]
  have hlines : Lines script.toList (before ++ stop :: after) := linesOf_eq_iff.mp (by decide)
  have hplain : ∀ line ∈ before ++ stop :: after, Plain line := by
    have hwords : ∀ line ∈ before ++ stop :: after,
        (Directive.splitWord (trimBlanks line)).1 ≠ "sleep".toList ∧
          (Directive.splitWord (trimBlanks line)).1 ≠ "pidfile".toList := by decide
    exact fun line hline arg =>
      ⟨not_spells (hwords line hline).1 arg, not_spells (hwords line hline).2 arg⟩
  have hgo : ∀ line ∈ before, ¬ Stops line := by
    refine List.forall_mem_cons.mpr ⟨?_, List.forall_mem_cons.mpr ⟨?_, fun _ h => nomatch h⟩⟩
    · have hread : Directive.read "print a".toList = .directive (.print "a") := by decide
      exact not_stops_of_read (by rw [hread]; decide) fun code => by rw [hread]; simp
    · have hread : Directive.read [] = .skip := by decide
      exact not_stops_of_read (by rw [hread]; decide) fun code => by rw [hread]; simp
  have hexits : Exits stop 3 :=
    ⟨"+3".toList, spells_iff.mpr (by decide), exitCode?_eq_some_iff.mp (by decide)⟩
  obtain ⟨prints, eprints, hprints, heprints, hcode, -⟩ :=
    (classifyRun_script m read save "x" script _ () .zero rfl hlines hplain rfl).2 before stop after
      rfl hgo
  have hprints' : Gathers "print" before ["a".toList] :=
    .take (spells_iff.mpr (by decide)) (.pass (not_spells (by decide)) .nil)
  have heprints' : Gathers "eprint" before [] :=
    .pass (not_spells (by decide)) (.pass (not_spells (by decide)) .nil)
  rw [hprints.unique hprints', heprints.unique heprints'] at hcode
  exact hcode 3 hexits (by decide)

end Script

end Conformance
