import Conformance.Proofs.Script.Steps

set_option autoImplicit false

/-! # Scripts in sequence

A script whose last line is ended can have another one behind it. Its lines either all lead on, each of
them from files to files (`Leads`, `Passes`), or there is a first one that stops the script, in the files
that the lines before have left behind (`Halts`, `StopsAt`). The lines behind a stop do nothing. Where there
is no stop the second script is run in the files that the first one has left behind, and all that it can
tell of the first one is how many lines that has: the number of a bad line is greater by so many
(`invoke_append`).

Carriage returns in front of newlines are blanks at the ends of lines, so that they change nothing.
-/

namespace Conformance

namespace Script

section Lines

variable {σ : Type} {save : Path → σ → Except IoError σ} {files files' : σ}

/-! ## One script behind another -/

/-- **What is behind lines that lead on** is run in the files that they leave behind. -/
theorem runLines_append_of_passes {lines : List (List Char)} (h : Passes save lines files files')
    (number : ℕ) (more : List (List Char)) :
    let first := runLines save number lines files
    first.files = files' ∧ first.ending = .exit 0 ∧
      runLines save number (lines ++ more) files =
        (runLines save (number + lines.length) more files').behind first.stdout first.stderr := by
  obtain ⟨outs, errs, -, -, hruns⟩ := runLines_passes h
  have hfirst : runLines save number lines files = ⟨written outs, written errs, files', .exit 0⟩ := by
    have hwhole := hruns number []
    rw [List.append_nil, runLines] at hwhole
    rw [hwhole, Transcript.behind, String.append_empty, String.append_empty]
  rw [hfirst]
  exact ⟨rfl, rfl, hruns number more⟩

/-- **Lines that stop early do what they do**, whatever is behind them. -/
theorem runLines_of_stopsEarly {lines : List (List Char)} (h : StopsEarly save lines files)
    (number : ℕ) (more : List (List Char)) :
    runLines save number (lines ++ more) files = runLines save number lines files := by
  obtain ⟨before, stop, after, files', rfl, hpasses, hhalts⟩ := h
  obtain ⟨outs, errs, -, -, hruns⟩ := runLines_passes hpasses
  rw [List.append_assoc, hruns, runLines_halts hhalts, hruns]

/-- **Lines that stop at a bad line** write what is written before and the diagnosis. -/
theorem runLines_misread {before : List (List Char)} {stop : List Char}
    (h : Passes save before files files') (hmisread : Misread stop) :
    ∃ outs errs, Gathers "print" before outs ∧ Gathers "eprint" before errs ∧
      ∀ number after, runLines save number (before ++ stop :: after) files =
        ⟨written outs, written errs ++ Directive.badLine (number + before.length) stop, files',
          .exit 2⟩ := by
  obtain ⟨outs, errs, houts, herrs, hruns⟩ := runLines_passes h
  refine ⟨outs, errs, houts, herrs, fun number after => ?_⟩
  rw [hruns, runLines, runLine_misread hmisread]
  simp [Transcript.behind]

/-- **Only a bad line tells its number.** -/
theorem runLines_number {lines : List (List Char)}
    (h : ∀ before stop, StopsAt save lines files before stop → ¬ Misread stop) (number number' : ℕ) :
    runLines save number lines files = runLines save number' lines files := by
  rcases passes_or_stopsEarly save lines files with ⟨files', hpasses⟩ |
    ⟨before, stop, after, files', rfl, hpasses, hhalts⟩
  · obtain ⟨outs, errs, -, -, hruns⟩ := runLines_passes hpasses
    have hnumber := (hruns number []).trans (hruns number' []).symm
    rwa [List.append_nil] at hnumber
  · obtain ⟨outs, errs, -, -, hruns⟩ := runLines_passes hpasses
    obtain ⟨err, ending, hrun⟩ := (runLine_halts hhalts).resolve_left
      (h before stop ⟨after, files', rfl, hpasses, hhalts⟩)
    rw [hruns, hruns, runLines, runLines, hrun, hrun]

/-- No number of a line matters to anything but the diagnosis of a bad one. -/
theorem runLines_alike (lines : List (List Char)) (files : σ) (number number' : ℕ) :
    (runLines save number lines files).stdout = (runLines save number' lines files).stdout ∧
      (runLines save number lines files).files = (runLines save number' lines files).files ∧
      (runLines save number lines files).ending = (runLines save number' lines files).ending := by
  by_cases hmisread : ∃ before stop, StopsAt save lines files before stop ∧ Misread stop
  · obtain ⟨before, stop, ⟨after, files', rfl, hpasses, -⟩, hmisread⟩ := hmisread
    obtain ⟨outs, errs, -, -, hruns⟩ := runLines_misread hpasses hmisread
    rw [hruns, hruns]
    exact ⟨rfl, rfl, rfl⟩
  · have hnone : ∀ before stop, StopsAt save lines files before stop → ¬ Misread stop :=
      fun before stop hstops hmisread' => hmisread ⟨before, stop, hstops, hmisread'⟩
    rw [runLines_number hnone number number']
    exact ⟨rfl, rfl, rfl⟩

/-! ## Two scripts -/

variable (save) in
/-- **What two scripts do in sequence.** The first one has so many lines and comes to its end; the second
one, of which these are the lines, is run in the files that the first one has left behind. -/
structure InSequence (length : ℕ) (lines : List (List Char)) (first second both : Transcript σ) :
    Prop where
  completed : first.ending = .exit 0
  stdout : both.stdout = first.stdout ++ second.stdout
  files : both.files = second.files
  ending : both.ending = second.ending
  stderr : (∀ before stop, StopsAt save lines first.files before stop → ¬ Misread stop) →
    both.stderr = first.stderr ++ second.stderr
  /-- The number of a bad line is greater by the lines of the first script. -/
  diagnosis : ∀ before stop, StopsAt save lines first.files before stop → Misread stop →
    ∃ errs, Gathers "eprint" before errs ∧
      second.stderr = written errs ++ Directive.badLine (before.length + 1) stop ∧
      both.stderr =
        first.stderr ++ (written errs ++ Directive.badLine (length + before.length + 1) stop)

/-- **Lines that all lead on, and lines behind them**, are run in sequence. -/
theorem inSequence_runLines {lines : List (List Char)} (h : Passes save lines files files')
    (more : List (List Char)) :
    let first := runLines save 1 lines files
    InSequence save lines.length more first (runLines save 1 more first.files)
      (runLines save 1 (lines ++ more) files) := by
  intro first
  obtain ⟨hfiles, hcompleted, hboth⟩ := runLines_append_of_passes h 1 more
  obtain ⟨hstdout, hleft, hending⟩ := @runLines_alike _ save more files' (1 + lines.length) 1
  show InSequence save lines.length more first (runLines save 1 more first.files) _
  rw [show first.files = files' from hfiles, hboth]
  refine ⟨hcompleted, congrArg (first.stdout ++ ·) hstdout, hleft, hending, fun hnone => ?_,
    fun before stop hstops hmisread => ?_⟩
  · rw [show first.files = files' from hfiles] at hnone
    exact congrArg (fun t => first.stderr ++ t.stderr) (runLines_number hnone _ 1)
  · rw [show first.files = files' from hfiles] at hstops
    obtain ⟨after, files'', rfl, hpasses, -⟩ := hstops
    obtain ⟨outs, errs, -, herrs, hruns⟩ := runLines_misread hpasses hmisread
    refine ⟨errs, herrs, ?_, ?_⟩
    · rw [hruns, add_comm]
    · have hnumber : 1 + lines.length + before.length = lines.length + before.length + 1 := by omega
      rw [hruns, hnumber]
      rfl

end Lines

/-! ## Carriage returns -/

section Returns

variable {σ : Type} {save : Path → σ → Except IoError σ}

/-- **Blanks at the ends of a line do not matter.** -/
theorem runLine_congr {line line' : List Char} (h : trimBlanks line = trimBlanks line') (number : ℕ)
    (files : σ) : runLine save number line files = runLine save number line' files := by
  have hread : Directive.read line = Directive.read line' := by
    simp only [Directive.read, h]
  have hbad : Directive.badLine number line = Directive.badLine number line' := by
    simp only [Directive.badLine, h]
  rw [runLine, runLine, hread, hbad]

theorem runLines_congr {lines lines' : List (List Char)}
    (h : lines.map trimBlanks = lines'.map trimBlanks) (number : ℕ) (files : σ) :
    runLines save number lines files = runLines save number lines' files := by
  induction lines generalizing lines' number files with
  | nil =>
      rw [List.map_nil, eq_comm, List.map_eq_nil_iff] at h
      rw [h]
  | cons line lines ih =>
      cases lines' with
      | nil => cases h
      | cons line' lines' =>
          obtain ⟨hline, hlines⟩ := List.cons.inj h
          rw [runLines, runLines, runLine_congr hline, ih hlines]

end Returns

/-! ## The interpreter -/

def Holds {σ : Type} (read : Path → σ → Except IoError Bytes) (files : σ) (file text : String) : Prop :=
  read ⟨Utf8.encode file⟩ files = .ok (Utf8.encode text)

/-- **Two scripts in one file are run one after the other.** Let the first one be empty or end with a
newline. If it stops early, then what is behind it changes nothing: the interpreter does what it does with
the first script alone. Otherwise it does what it does with both, where the second one is run in the files
that the first one has left behind; the number of a bad line is greater by the lines of the first script.
Carriage returns in front of newlines change nothing at all. -/
theorem invoke_append {σ : Type} (read : Path → σ → Except IoError Bytes)
    (save : Path → σ → Except IoError σ) (files : σ) :
    (∀ script text whole more lines moreLines, Closed text.toList →
      Lines text.toList lines → Lines more.toList moreLines →
      Holds read files script text → Holds read files whole (text ++ more) →
      let first := invoke read save [Utf8.encode script] files
      let both := invoke read save [Utf8.encode whole] files
      (StopsEarly save lines files → both = first) ∧
      (¬ StopsEarly save lines files → ∀ behind, Holds read first.files behind more →
        InSequence save lines.length moreLines first
          (invoke read save [Utf8.encode behind] first.files) both)) ∧
    ∀ plain returned text, Holds read files plain text →
      Holds read files returned (String.ofList (withReturns text.toList)) →
        invoke read save [Utf8.encode returned] files =
          invoke read save [Utf8.encode plain] files := by
  refine ⟨?_, fun plain returned text hplain hreturned => ?_⟩
  · intro script text whole more lines moreLines hclosed hlines hmore hscript hwhole first both
    have hfirst : first = runLines save 1 lines files := invoke_text save hscript hlines
    have hboth : both = runLines save 1 (lines ++ moreLines) files := by
      refine invoke_text save hwhole ?_
      rw [String.toList_append]
      exact hlines.append hclosed hmore
    refine ⟨fun hstops => ?_, fun hgoes behind hbehind => ?_⟩
    · rw [hboth, hfirst]
      exact runLines_of_stopsEarly hstops 1 _
    · obtain ⟨files', hpasses⟩ := (passes_or_stopsEarly save lines files).resolve_right hgoes
      rw [invoke_text save hbehind hmore, hboth, hfirst]
      exact inSequence_runLines hpasses _
  · obtain ⟨lines, hlines, htrim⟩ := (lines_linesOf text.toList).exists_withReturns
    rw [invoke_text save hplain (lines_linesOf _), invoke_text save hreturned, runLines_congr htrim]
    rw [String.toList_ofList]
    exact hlines

/-- A script of three lines that saves a number, and one behind it that is stopped by its second line. -/
theorem invoke_append_sample :
    let text := "pidfile p\n\nprint a\n"
    let more := "-- b\nexit 256"
    let read : Path → List Path → Except IoError Bytes := fun file _ => .ok (Utf8.encode
      (if file = ⟨Utf8.encode "s"⟩ then text
        else if file = ⟨Utf8.encode "t"⟩ then more else text ++ more))
    let save : Path → List Path → Except IoError (List Path) := fun file files => .ok (file :: files)
    let both := invoke read save [Utf8.encode "w"] []
    both.stdout = "a\n" ∧ both.files = [.ofText "p"] ∧
      both.stderr = "mock_interpreter: line 5: bad directive 'exit 256'\n" := by
  intro text more read save both
  have hlines : Lines text.toList ["pidfile p".toList, [], "print a".toList] :=
    linesOf_eq_iff.mp (by decide)
  have hmore : Lines more.toList ["-- b".toList, "exit 256".toList] := linesOf_eq_iff.mp (by decide)
  have hsaves : Spells "pidfile p".toList "pidfile" "p".toList := spells_iff.mpr (by decide)
  have hprints : Spells "print a".toList "print" "a".toList := spells_iff.mpr (by decide)
  have hexits : Spells "exit 256".toList "exit" "256".toList := spells_iff.mpr (by decide)
  have hignored : ∀ files : List Path, Leads save "-- b".toList files files :=
    fun _ => .ignored (ignored_iff.mpr (by decide))
  have hpasses : Passes save ["pidfile p".toList, [], "print a".toList] [] [.ofText "p"] :=
    .cons (.saves hsaves rfl)
      (.cons (.ignored (ignored_iff.mpr (by decide))) (.cons (.writes (Or.inl hprints)) .nil))
  have hmisread : Misread "exit 256".toList := by
    refine Or.inl ⟨hexits.not_ignored (by decide), _, _, hexits, Or.inr ⟨rfl, fun code hdenotes => ?_⟩⟩
    by_contra hlt
    have hread := exitCode?_eq_some_iff.mpr ⟨hdenotes, not_le.mp hlt⟩
    rw [show Directive.exitCode? "256".toList = none by decide] at hread
    cases hread
  have hclosed : Closed text.toList :=
    fun c hc => Option.mem_unique hc (show '\n' ∈ text.toList.getLast? by decide)
  obtain ⟨-, hsequence⟩ := (invoke_append read save []).1 "s" text "w" more _ _
    hclosed hlines hmore rfl rfl
  have hboth := hsequence hpasses.not_stopsEarly "t" rfl
  obtain ⟨errs, herrs, -, hstderr⟩ := hboth.diagnosis ["-- b".toList] "exit 256".toList
    ⟨[], _, rfl, .cons (hignored _) .nil, .misread hmisread⟩ hmisread
  have hfirst : invoke read save [Utf8.encode "s"] [] = ⟨"a\n", "", [.ofText "p"], .exit 0⟩ :=
    (invoke_text save rfl hlines).trans rfl
  obtain rfl : errs = [] := herrs.unique (.pass (not_spells (by decide)) .nil)
  rw [hfirst] at hboth hstderr
  have hsecond : invoke read save [Utf8.encode "t"] [.ofText "p"] =
      ⟨"", Directive.badLine 2 "exit 256".toList, [.ofText "p"], .exit 2⟩ :=
    (invoke_text save rfl hmore).trans rfl
  rw [hsecond] at hboth
  exact ⟨hboth.stdout, hboth.files, hstderr⟩

end Script

end Conformance
